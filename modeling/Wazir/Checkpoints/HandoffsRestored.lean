import Wazir.Checkpoints.CreatedHandoffs

/-! Which of the handoffs that were created are accepted after a restart. -/

namespace Wazir.Checkpoints

open JsValue

variable {revision : JsNumber} {a : PortableActionSummary}

namespace Handoff

/-! After a restart. -/

section Restart

variable {host : RestoreHost} {store : RevivingStore}

theorem blankDigest_safe (r : StoredRecord) :
    SafeFields (r.fields.filter (fun kv => kv.1 ≠ "integrityDigest") ++
      [("integrityDigest", .str "")]) ∧
    ∀ kv ∈ r.fields.filter (fun kv => kv.1 ≠ "integrityDigest") ++ [("integrityDigest", JsValue.str "")],
      kv.2.isUndefined = false := by
  constructor
  · intro kv hkv
    rcases List.mem_append.mp hkv with hkv | hkv
    · exact r.safe kv (List.mem_of_mem_filter hkv)
    · obtain rfl := List.mem_singleton.mp hkv
      decide
  · intro kv hkv
    rcases List.mem_append.mp hkv with hkv | hkv
    · exact r.defined kv (List.mem_of_mem_filter hkv)
    · obtain rfl := List.mem_singleton.mp hkv
      rfl

theorem blankDigest_reload {parseDate : String → JsDate} (r : StoredRecord) :
    blankDigest (store.reload parseDate r.toJs) = store.reload parseDate (blankDigest r.toJs) := by
  obtain ⟨hsafe, hdefined⟩ := blankDigest_safe r
  have hempty : store.reload parseDate (.str "") = .str "" := by
    rw [reload_str]
    rfl
  have hright : store.reload parseDate (blankDigest r.toJs) = _ := reload_full store parseDate hsafe hdefined
  rw [hright, reload_toJs, blankDigest, entries, List.filter_map, List.map_append, List.map_singleton,
    hempty]
  rfl

theorem get_back {parseDate : String → JsDate} (r : StoredRecord) {key : String}
    (h : r.toJs.get key ≠ .undefined) :
    (store.reload parseDate r.toJs).get key = store.reload parseDate (r.toJs.get key) := by
  cases hlookup : r.fields.lookup key with
  | none =>
    rw [StoredRecord.toJs, get_obj, hlookup] at h
    exact absurd rfl h
  | some v => rw [get_reload r hlookup, r.get_toJs hlookup]

/-- The required texts do not look like dates, and what else does is settled. -/
structure Survives (store : RevivingStore) (parseDate : String → JsDate) (v : JsValue) : Prop where
  required : ∀ name ∈ requiredTexts, ∀ s, v.get name = .str s → isIsoDateString s = false
  settled : settled store parseDate (blankDigest v) = true

/-- The text that the digest of a handoff is taken of. -/
def hashedText (v : JsValue) : String := String.ofList (canonicalText (blankDigest v))

/-- The hash tells the text that was written from the one that is read back. -/
def NoCollision (host : RestoreHost) (store : RevivingStore) (v : JsValue) : Prop :=
  let back := store.reload host.parseDate v
  host.sha256 (hashedText v) = host.sha256 (hashedText back) → hashedText v = hashedText back

variable (hparse : ∀ t, host.parseDate (isoText t) = some t)

include hparse

theorem reload_passes {r : StoredRecord} (hpasses : Passes host r.toJs)
    (hrevision : ∃ s, r.toJs.get "workspaceRevision" = .str s ∧ s ≠ "")
    (hsurvives : Survives store host.parseDate r.toJs) :
    Passes host (store.reload host.parseDate r.toJs) := by
  have htext : ∀ name ∈ requiredTexts, ∀ s, r.toJs.get name = .str s →
      (store.reload host.parseDate r.toJs).get name = .str s := by
    intro name hname s hs
    rw [get_back r (by rw [hs]; nofun), hs, reload_str,
      if_neg (by rw [hsurvives.required name hname s hs]; decide)]
  have hversion : r.toJs.get "schemaVersion" = .nat 1 := by
    have := hpasses.version
    cases hv : r.toJs.get "schemaVersion" <;> rw [hv] at this <;> cases this
    rfl
  refine ⟨?_, fun name hname => ?_, ?_, ?_, ?_⟩
  · rw [get_back r (by rw [hversion]; nofun), hversion, reload_nat]
    rfl
  · obtain ⟨s, hs, hne⟩ := hpasses.texts name hname
    exact ⟨s, htext name hname s hs, hne⟩
  · obtain ⟨s, hs, hne⟩ := hrevision
    rw [missingRevision_iff, get_back r (by rw [hs]; nofun), hs, reload_str]
    split_ifs
    · exact ⟨nofun, nofun, nofun⟩
    · exact ⟨nofun, nofun, fun heq => hne (JsValue.str.inj heq)⟩
  · rw [blankDigest_reload]
    exact containsUnredactedSecret_reload hpasses.secrets hsurvives.settled
  · obtain ⟨expected, hexpected, hdigest⟩ := hpasses.digest
    refine ⟨expected, ?_, htext _ (by simp [requiredTexts]) _ hdigest⟩
    rw [computePortableHandoffDigest_eq] at hexpected ⊢
    split_ifs at hexpected with hvalid
    obtain ⟨hvalid', htext'⟩ := canonicalText_reload hparse hvalid hsurvives.settled
    rw [blankDigest_reload, if_pos hvalid', htext']
    exact hexpected

theorem survives_of_passes {r : StoredRecord} (hpasses : Passes host r.toJs)
    (hfree : NoCollision host store r.toJs)
    (hback : Passes host (store.reload host.parseDate r.toJs)) :
    Survives store host.parseDate r.toJs := by
  have hrequired : ∀ name ∈ requiredTexts, ∀ s, r.toJs.get name = .str s →
      isIsoDateString s = false ∧ (store.reload host.parseDate r.toJs).get name = .str s := by
    intro name hname s hs
    obtain ⟨s', hs', -⟩ := hback.texts name hname
    have hget : (store.reload host.parseDate r.toJs).get name = store.reload host.parseDate (.str s) := by
      rw [get_back r (by rw [hs]; nofun), hs]
    rw [hget, reload_str] at hs'
    split_ifs at hs' with hiso
    exact ⟨by simpa using hiso, by rw [hget, reload_str, if_neg hiso]⟩
  refine ⟨fun name hname s hs => (hrequired name hname s hs).1, ?_⟩
  obtain ⟨expected, hexpected, hdigest⟩ := hpasses.digest
  obtain ⟨expected', hexpected', hdigest'⟩ := hback.digest
  have hsame : expected' = expected := by
    rw [(hrequired _ (by simp [requiredTexts]) _ hdigest).2] at hdigest'
    exact (JsValue.str.inj hdigest').symm
  rw [computePortableHandoffDigest_eq] at hexpected hexpected'
  split_ifs at hexpected with hvalid
  split_ifs at hexpected' with hvalid'
  have hhash : host.sha256 (hashedText r.toJs) =
      host.sha256 (hashedText (store.reload host.parseDate r.toJs)) := by
    rw [hashedText, hashedText, Option.some.inj hexpected, Option.some.inj hexpected', hsame]
  have htext := String.ofList_inj.mp (hfree hhash)
  have hsecret := hback.secrets
  rw [blankDigest_reload] at htext hsecret
  exact (settled_of_text hparse hvalid hsecret (congrArg (· ++ []) htext)).1

theorem reload_passes_iff {r : StoredRecord} (hpasses : Passes host r.toJs)
    (hrevision : ∃ s, r.toJs.get "workspaceRevision" = .str s ∧ s ≠ "")
    (hfree : NoCollision host store r.toJs) :
    Passes host (store.reload host.parseDate r.toJs) ↔ Survives store host.parseDate r.toJs :=
  ⟨survives_of_passes hparse hpasses hfree, reload_passes hparse hpasses hrevision⟩

end Restart

/-! Which members settle. -/

section Settled

variable {store : RevivingStore} {parseDate : String → JsDate}

/-- A name that revival and redaction leave alone. -/
def isPlainKey (key : String) : Bool := key ∉ unsafeKeys && !secretKey key

theorem settledMember_plain {key : String} (h : isPlainKey key = true) (v : JsValue) :
    settledMember store parseDate (key, v) = settled store parseDate v := by
  rw [isPlainKey, Bool.and_eq_true, decide_eq_true_eq, Bool.not_eq_true'] at h
  rw [settledMember_safe h.1]
  simp [h.2]

theorem settled_presentMembers (keys : List String) {members : List (String × Option JsValue)}
    (hkeys : members.map Prod.fst = keys) (h : keys.all isPlainKey) :
    settled store parseDate (.obj (presentMembers members)) =
      members.all fun m => m.2.all (settled store parseDate) := by
  rw [settled, settledFields_eq]
  subst hkeys
  induction members with
  | nil => rfl
  | cons m rest ih =>
    obtain ⟨k, v⟩ := m
    rw [List.map_cons, List.all_cons, Bool.and_eq_true] at h
    rw [List.all_cons, ← ih h.2]
    cases v with
    | none => rfl
    | some v =>
      change (settledMember store parseDate (k, v) && _) = _
      rw [settledMember_plain h.1]
      rfl

theorem settled_strings (items : List String) :
    settled store parseDate (strings items) = items.all (settledText parseDate) := by
  rw [strings, settled, settledItems_eq, List.all_map]
  rfl

theorem settledText_notIso {s : String} (h : isIsoDateString s = false) : settledText parseDate s = true := by
  rw [settledText, h]
  rfl

theorem settledText_isoText (hparse : ∀ t, parseDate (isoText t) = some t) (t : Timestamp) :
    settledText parseDate (isoText t) = true := by
  rw [settledText, hparse, Option.any_some, decide_eq_true rfl, Bool.or_true]

theorem settled_action (a : PortableActionSummary) : settled store parseDate a.toJs =
    (settledText parseDate a.actionId && settledText parseDate a.summary &&
      a.toolName.all (settledText parseDate) && a.targetPath.all (settledText parseDate) &&
      settledText parseDate a.doneAt) := by
  have hkind : settledText parseDate a.kind.text = true :=
    settledText_notIso (by cases a.kind <;> decide)
  rw [PortableActionSummary.toJs, settled_presentMembers ["actionId", "kind", "summary", "toolName",
    "targetPath", "workspaceRevision", "confirmed", "at"] rfl (by decide)]
  simp only [List.all_cons, List.all_nil, Option.all_some, Option.all_map, settled, hkind,
    Bool.and_true, Bool.true_and, Bool.and_assoc]

theorem settled_call (c : ToolCallCheckpoint) : settled store parseDate c.toJs =
    (settledText parseDate c.executionId && settledText parseDate c.callId &&
      settledText parseDate c.stepId && settledText parseDate c.toolName &&
      settled store parseDate c.input && settledText parseDate c.argumentsHash) := by
  have hstate : settledText parseDate (stateText c.state) = true :=
    settledText_notIso (by cases c.state <;> decide)
  have hclass : settledText parseDate (sideEffectText c.sideEffectClass) = true :=
    settledText_notIso (by cases c.sideEffectClass <;> decide)
  have hall : ∀ {α : Type} (o : Option α), o.all (fun _ => true) = true := by
    intro α o
    cases o <;> rfl
  rw [ToolCallCheckpoint.toJs, settled_presentMembers ["executionId", "callId", "stepId", "toolName",
    "input", "argumentsHash", "startedAt", "state", "workspaceRevision", "sideEffectClass",
    "legacyCorrelation", "finishedAt"] rfl (by decide)]
  simp only [List.all_cons, List.all_nil, Option.all_some, Option.all_map, settled, hstate, hclass, hall,
    Bool.and_true, Bool.and_assoc]

/-! Texts that no date looks like. -/

theorem notIso_first {c : Char} (hc : c.isDigit = false) {s : String} {rest : List Char}
    (hs : s.toList = c :: rest) : isIsoDateString s = false := by
  have hpattern : dropPattern "dddd-dd-ddTdd:dd:dd".toList (c :: rest) = none := by
    simp [dropPattern, hc]
  rw [isIsoDateString, hs, hpattern]
  exact Bool.and_false _

theorem notIso_plain {s : String} (h : s.toList.all isPlainChar) : isIsoDateString s = false := by
  by_contra hiso
  simp only [isIsoDateString, Bool.not_eq_false, Bool.and_eq_true, Option.any_eq_true] at hiso
  obtain ⟨-, rest, hrest, -⟩ := hiso
  have hcolon := mem_of_dropPattern (c := ':') (by decide) hrest (by decide)
  have hplain := List.all_eq_true.mp h _ hcolon
  revert hplain
  decide

theorem notIso_append {s t : String} (h : s.toList.head?.any fun c => !c.isDigit) :
    isIsoDateString (s ++ t) = false := by
  cases hs : s.toList with
  | nil =>
    rw [hs] at h
    cases h
  | cons c rest =>
    rw [hs] at h
    exact notIso_first (by simpa using h) (by rw [String.toList_append, hs]; rfl)

/-- A text that begins with neither a digit nor a secret. -/
theorem notIso_redact {s t : String} (h : s.toList.head?.any fun c => !c.isDigit)
    (hmatch : ∀ rest, secretMatch (s.toList ++ rest) = none) : isIsoDateString (redact (s ++ t)) = false := by
  cases hs : s.toList with
  | nil =>
    rw [hs] at h
    cases h
  | cons c rest =>
    rw [hs] at h hmatch
    have hfirst : (redact (s ++ t)).toList = c :: redactChars (rest ++ t.toList) := by
      rw [redact, String.toList_ofList, String.toList_append, hs, List.cons_append,
        redactChars_copy (show secretMatch (c :: (rest ++ t.toList)) = none from hmatch t.toList)]
    exact notIso_first (by simpa using h) hfirst

/-! What settles of a draft. -/

theorem all_mapM {α β : Type} {f : α → Except String β} {l : List α} {out : List β}
    (h : l.mapM f = .ok out) {p : β → Bool} {q : α → Bool} (hpq : ∀ a b, f a = .ok b → p b = q a) :
    out.all p = l.all q := by
  have hall := mapM_ok.mp h
  clear h
  induction hall with
  | nil => rfl
  | cons hab _ ih => rw [List.all_cons, List.all_cons, hpq _ _ hab, ih]

theorem all_mapIdx {α β : Type} (f : ℕ → α → β) (l : List α) {p : β → Bool} {q : α → Bool}
    (hpq : ∀ i a, p (f i a) = q a) : (l.mapIdx f).all p = l.all q := by
  induction l generalizing f with
  | nil => rfl
  | cons a rest ih =>
    rw [List.mapIdx_cons, List.all_cons, List.all_cons, hpq, ih _ fun i a => hpq (i + 1) a]

theorem all_and {α : Type} (l : List α) (p q : α → Bool) :
    l.all (fun a => p a && q a) = (l.all p && l.all q) := by
  rw [Bool.eq_iff_iff, Bool.and_eq_true, List.all_eq_true, List.all_eq_true, List.all_eq_true,
    ← forall₂_and]
  simp only [Bool.and_eq_true]

variable (hparse : ∀ t, parseDate (isoText t) = some t)

include hparse

theorem settled_toISOString {d : JsDate} {s : String} (h : toISOString d = .ok s) :
    settledText parseDate s = true := by
  cases d with
  | none => cases h
  | some t =>
    obtain rfl := Except.ok.inj h
    exact settledText_isoText hparse t

theorem settled_toolAction {tc : ToolCallRecord} (h : toolAction revision tc = .ok a) :
    settled store parseDate a.toJs = (toolTexts tc).all (settledText parseDate) := by
  rw [toolAction, except_bind_eq_ok] at h
  obtain ⟨s, hs, ha⟩ := h
  obtain rfl := Except.ok.inj ha
  have hsummary : ∀ t, settledText parseDate (redact ("Confirmed tool '" ++ t)) = true :=
    fun t => settledText_notIso (notIso_redact rfl fun _ => rfl)
  simp [settled_action, settled_toISOString hparse hs, toolTexts, String.append_assoc, hsummary]

omit hparse in
theorem settled_file (t : String) : settledText parseDate (redact ("Modified file '" ++ t)) = true :=
  settledText_notIso (notIso_redact rfl fun _ => rfl)

theorem settled_mutationAction {m : FileMutation} (h : mutationAction m = .ok a) :
    settled store parseDate a.toJs = (fileTexts m.revision m.path).all (settledText parseDate) := by
  rw [mutationAction, except_bind_eq_ok] at h
  obtain ⟨s, hs, ha⟩ := h
  obtain rfl := Except.ok.inj ha
  simp [settled_action, settled_toISOString hparse hs, fileTexts, String.append_assoc, settled_file]

theorem settled_fileAction (revision : JsNumber) (path : String) (now : Timestamp) :
    settled store parseDate (fileAction revision path now).toJs =
      (fileTexts revision path).all (settledText parseDate) := by
  simp [settled_action, fileAction, settledText_isoText hparse, fileTexts, String.append_assoc,
    settled_file]

theorem settled_checkAction (revision : JsNumber) (check : CheckRun) (now : Timestamp) :
    settled store parseDate (checkAction revision check now).toJs = true := by
  have hid : ∀ t, settledText parseDate ("check-" ++ t) = true :=
    fun t => settledText_notIso (notIso_append rfl)
  have hsummary : ∀ t, settledText parseDate (redact ("Check '" ++ t)) = true :=
    fun t => settledText_notIso (notIso_redact rfl fun _ => rfl)
  simp [settled_action, checkAction, settledText_isoText hparse, String.append_assoc, hid, hsummary]

/-- The summary of a step, as it is written out. -/
def stepText (e : ExecutionEvent) : String := redact (stepSummary e.data)

theorem settled_stepAction {e : ExecutionEvent} (h : stepAction revision e = .ok a) :
    settled store parseDate a.toJs =
      (settledText parseDate (stepId e) && settledText parseDate (stepText e)) := by
  rw [stepAction, except_bind_eq_ok] at h
  obtain ⟨s, hs, ha⟩ := h
  obtain rfl := Except.ok.inj ha
  simp [settled_action, settled_toISOString hparse hs, stepId, stepText]

theorem settled_fileActions {r : ExecutionRecord} {clock : Clock}
    {actions : List PortableActionSummary} (h : fileActions r revision clock = .ok actions) :
    actions.all (fun a => settled store parseDate a.toJs) =
      (if r.mutationHistory ≠ [] then r.mutationHistory.flatMap fun m => fileTexts m.revision m.path
        else r.filesChanged.flatMap (fileTexts revision)).all (settledText parseDate) := by
  rw [fileActions] at h
  split_ifs at h ⊢
  · rw [List.all_flatMap]
    exact all_mapM h fun m a => settled_mutationAction hparse
  · obtain rfl := Except.ok.inj h
    rw [List.all_flatMap]
    exact all_mapIdx _ _ fun i path => settled_fileAction hparse revision path (clock.mutation i)

def stepTexts (r : ExecutionRecord) : List String :=
  (r.events.filter fun e => e.kind = .stepCompleted).map stepText

theorem settled_completedActions {r : ExecutionRecord} {clock : Clock}
    {actions : List PortableActionSummary} (h : completedActions r revision clock = .ok actions) :
    actions.all (fun a => settled store parseDate a.toJs) =
      ((actionTexts r revision).all (settledText parseDate) &&
        (stepTexts r).all (settledText parseDate)) := by
  simp only [completedActions, except_bind_eq_ok] at h
  obtain ⟨tools, htools, files, hfiles, steps, hsteps, hout⟩ := h
  obtain rfl := Except.ok.inj hout
  have hchecks : ((r.checks.filter (currentCheck revision)).mapIdx fun i check =>
      checkAction revision check (clock.check i)).all (fun a => settled store parseDate a.toJs) =
      true :=
    (all_mapIdx (p := fun a : PortableActionSummary => settled store parseDate a.toJs)
      (q := fun _ => true) _ _ fun i check =>
        settled_checkAction hparse revision check (clock.check i)).trans (by simp)
  rw [List.all_append, List.all_append, List.all_append, hchecks, Bool.and_true,
    all_mapM htools fun tc a => settled_toolAction hparse, settled_fileActions hparse hfiles,
    all_mapM hsteps fun e a => settled_stepAction hparse, all_and, actionTexts, List.all_append,
    List.all_append, List.all_flatMap, stepTexts, List.all_map, List.all_map, Bool.and_assoc,
    Bool.and_assoc, Bool.and_assoc]
  simp only [Function.comp_def]

omit hparse

theorem settled_budget (b : PortableBudgetState) : settled store parseDate b.toJs = true := by
  have hcost : settledText parseDate b.costStatus.text = true :=
    settledText_notIso (by cases b.costStatus <;> decide)
  have hkeys : ∀ key ∈ ["tokensUsed", "toolCallsUsed", "modelCallsUsed", "costUSD", "costStatus",
      "durationMs"], isPlainKey key = true := by decide
  rw [PortableBudgetState.toJs, settled, settledFields_eq]
  simp [settledMember_plain, hkeys, settled, hcost]

theorem settled_remaining (r : ExecutionRecord) (limits : BudgetLimits) (consumed : PortableBudgetState) :
    settled store parseDate (.obj ((remainingBudget r limits consumed).map fun kv =>
      (kv.1, (kv.2.map .num).getD .null))) = true := by
  have hkeys : ∀ key ∈ ["maxTokens", "maxToolCalls", "maxModelCalls", "maxCostUSD", "maxDurationMs"],
      isPlainKey key = true := by decide
  have hnumber : ∀ n : Option JsNumber, settled store parseDate ((n.map .num).getD .null) = true := by
    intro n
    cases n <;> rfl
  rw [settled, settledFields_eq, List.all_map, List.all_eq_true]
  intro kv hkv
  exact (settledMember_plain (hkeys kv.1 (List.mem_map_of_mem hkv)) _).trans (hnumber kv.2)

theorem settled_blank (hparse : ∀ t, parseDate (isoText t) = some t) (d : PortableDraft) :
    settled store parseDate (.obj (presentMembers d.blank)) =
    (settledText parseDate d.executionId && settledText parseDate d.taskId &&
      d.jobId.all (settledText parseDate) && settledText parseDate d.sourceHarnessId &&
      d.targetHarnessId.all (settledText parseDate) && settledText parseDate d.sourceModelId &&
      settledText parseDate d.sourceRuntimeId && d.sourceWorkerId.all (settledText parseDate) &&
      settledText parseDate d.workspaceContentDigest && settledText parseDate d.checkpointId &&
      settledText parseDate d.objective &&
      d.completedActions.all (fun a => settled store parseDate a.toJs) &&
      d.pendingActions.all (settledText parseDate) && d.filesChanged.all (settledText parseDate) &&
      d.unresolvedSideEffects.all (fun c => settled store parseDate c.toJs) &&
      d.verificationEvidenceIds.all (settledText parseDate) &&
      settled store parseDate (.obj (d.remainingBudget.map fun kv =>
        (kv.1, (kv.2.map .num).getD .null))) &&
      settled store parseDate (.obj d.policyContext) &&
      d.nonResumableReason.all (settledText parseDate)) := by
  have hrevision : settledText parseDate (numberString d.workspaceRevision) = true :=
    settledText_notIso (notIso_plain (numberString_plain d.workspaceRevision))
  have hempty : settledText parseDate "" = true := rfl
  rw [settled_presentMembers (handoffKeys ++ ["integrityDigest"]) rfl (by decide),
    PortableDraft.blank, PortableDraft.members]
  simp only [List.all_append, List.all_cons, List.all_nil, Option.all_some, Option.all_map,
    settled_strings, settled_budget, hrevision, hempty, settledText_isoText hparse, settled,
    settledItems_eq, List.all_map, Function.comp_def, JsValue.nat, Bool.and_true, Bool.true_and,
    Bool.and_assoc]

theorem settled_unresolved (calls : List ToolCallCheckpoint) :
    (unresolvedSideEffects calls).all (fun c => settled store parseDate c.toJs) =
      (((calls.filter fun c => c.state.unresolved).flatMap callTexts).all (settledText parseDate) &&
        (calls.filter fun c => c.state.unresolved).all fun c =>
          settled store parseDate (redactUnknown c.input)) := by
  rw [unresolvedSideEffects, List.all_map, List.all_flatMap, ← all_and]
  congr 1
  funext c
  simp only [Function.comp_apply, settled_call, callTexts, List.all_cons, List.all_nil, Bool.and_true]
  ac_rfl

theorem settled_reason (status : Core.ExecutionStatus) (unresolved : List ToolCallCheckpoint)
    (remaining : List (String × Option JsNumber)) :
    (nonResumableReason status unresolved remaining).all (settledText parseDate) = true := by
  have hunresolved : ∀ t, settledText parseDate
      (redact ("UNRESOLVED_MUTATING_SIDE_EFFECTS: " ++ t)) = true :=
    fun t => settledText_notIso (notIso_redact rfl fun _ => rfl)
  have hexhausted : ∀ t, settledText parseDate ("BUDGET_EXHAUSTED: " ++ t) = true :=
    fun t => settledText_notIso (notIso_append rfl)
  simp only [nonResumableReason]
  split_ifs
  · rfl
  · rfl
  · rw [Option.all_some, hunresolved]
  · rw [Option.all_some, hexhausted]
  · rfl

theorem all_toList {α : Type} (o : Option α) (p : α → Bool) : o.toList.all p = o.all p := by
  cases o with
  | none => rfl
  | some a => exact Bool.and_true _

end Settled

/-! The condition on the record and the options. -/

section Create

variable (host : Host) (store : RevivingStore) (projectRoot : Option String)
  (service : Option (List ExecutionCheckpoint)) (engine : List ToolCallCheckpoint) (r : ExecutionRecord)
  (options : CreateOptions) (clock : Clock)

/-- The identities that have to be texts. -/
def identities : List String :=
  [r.id, r.taskId, sourceHarnessId r options,
    (stateOf host projectRoot service r options clock).checkpointId]

/-- The texts that are redacted and written out without an addition. -/
def redactedTexts : List String :=
  [redact (if r.input = "" then "Continue task execution" else r.input)] ++ stepTexts r ++
    (options.pendingActions.getD (if r.status = .completed then [] else defaultPending)).map redact

/-- Nothing in what is written out comes back as another value: texts that look like dates are as
`toISOString` writes them, and no identity looks like one. -/
structure Settled : Prop where
  identities : ∀ s ∈ identities host projectRoot service r options clock, isIsoDateString s = false
  texts : ∀ s ∈ unredactedTexts host projectRoot service engine r options clock,
    settledText host.parseDate s = true
  redacted : ∀ s ∈ redactedTexts r options, settledText host.parseDate s = true
  inputs : ∀ c ∈ unresolvedCalls host engine r,
    settled store host.parseDate (redactUnknown c.input) = true
  policy : settled store host.parseDate (.obj (redactFields (basePolicy r.policy options.policyContext
    (r.workspaceRoot.orElse fun _ => projectRoot)).entries)) = true

variable {host store projectRoot service engine r options clock}

theorem settled_draft (hparse : ∀ t, host.parseDate (isoText t) = some t)
    (hsha : ∀ text, (host.sha256 text).length = 64) {d : PortableDraft}
    (h : draft host projectRoot service engine r options clock = .ok d) :
    settled store host.parseDate (.obj (presentMembers d.blank)) = true ↔
      (∀ s ∈ unredactedTexts host projectRoot service engine r options clock,
        settledText host.parseDate s = true) ∧
      (∀ s ∈ redactedTexts r options, settledText host.parseDate s = true) ∧
      (∀ c ∈ unresolvedCalls host engine r,
        settled store host.parseDate (redactUnknown c.input) = true) ∧
      settled store host.parseDate (.obj (redactFields (basePolicy r.policy options.policyContext
        (r.workspaceRoot.orElse fun _ => projectRoot)).entries)) = true := by
  simp only [draft, except_bind_eq_ok] at h
  obtain ⟨actions, hactions, hout⟩ := h
  obtain rfl := Except.ok.inj hout
  have hdigest : settledText host.parseDate
      (stateOf host projectRoot service r options clock).contentDigest = true := by
    obtain ⟨text, htext⟩ := @stateOf_digest host projectRoot service r options clock
    rw [htext]
    exact settledText_notIso (notIso_digest hsha text)
  simp only [← List.all_eq_true, ← Bool.and_eq_true]
  rw [Bool.coe_iff_coe, settled_blank hparse]
  simp only [settled_completedActions hparse hactions, settled_remaining, settled_unresolved,
    settled_reason, hdigest, unredactedTexts, redactedTexts, evidenceIds, unresolvedCalls,
    sourceHarnessId, List.all_append, List.all_cons, List.all_nil, all_toList, Bool.and_true]
  generalize settledText host.parseDate = settledAt
  ac_rfl

end Create

/-! Handoffs that were created. -/

/-- A handoff, and what it was created of. -/
structure Creation (host : Host) where
  projectRoot : Option String
  service : Option (List ExecutionCheckpoint)
  engine : List ToolCallCheckpoint
  record : ExecutionRecord
  options : CreateOptions
  clock : Clock
  handoff : PortableHandoff
  created : createPortableHandoff host projectRoot service engine record options clock = .ok handoff

namespace Creation

variable {host : Host} (c : Creation host)

/-- The identities are there, and no text that is written out as it is looks like a secret. -/
structure Clean : Prop where
  identified : c.record.id ≠ "" ∧ c.record.taskId ≠ "" ∧ sourceHarnessId c.record c.options ≠ ""
  unredacted : ∀ s ∈ unredactedTexts host c.projectRoot c.service c.engine c.record c.options c.clock,
    secretText s = false

def Settled (store : RevivingStore) : Prop :=
  Handoff.Settled host store c.projectRoot c.service c.engine c.record c.options c.clock

theorem signed : ∃ d digest,
    draft host c.projectRoot c.service c.engine c.record c.options c.clock = .ok d ∧
      host.computePortableHandoffDigest d.toJs = some digest ∧ c.handoff = d.signed digest := by
  have h := c.created
  rw [createPortableHandoff, except_bind_eq_ok] at h
  obtain ⟨d, hd, hout⟩ := h
  cases hdigest : host.computePortableHandoffDigest d.toJs with
  | none =>
    rw [hdigest] at hout
    cases hout
  | some digest =>
    rw [hdigest] at hout
    exact ⟨d, digest, hd, hdigest, (Except.ok.inj hout).symm⟩

/-- The required texts of a handoff that was created. -/
theorem required_eq {d : PortableDraft} {digest : String}
    (hd : draft host c.projectRoot c.service c.engine c.record c.options c.clock = .ok d)
    (hdigest : host.computePortableHandoffDigest d.toJs = some digest) :
    ∃ text text', (d.required digest).map Prod.snd = [c.record.id, c.record.taskId,
      sourceHarnessId c.record c.options,
      (stateOf host c.projectRoot c.service c.record c.options c.clock).checkpointId, host.sha256 text,
      host.sha256 text'] := by
  obtain ⟨text', rfl⟩ : ∃ text', digest = host.sha256 text' := by
    rw [computePortableHandoffDigest_eq] at hdigest
    split_ifs at hdigest
    exact ⟨_, (Option.some.inj hdigest).symm⟩
  obtain ⟨text, htext⟩ := @stateOf_digest host c.projectRoot c.service c.record c.options c.clock
  simp only [draft, except_bind_eq_ok] at hd
  obtain ⟨actions, -, hout⟩ := hd
  obtain rfl := Except.ok.inj hout
  refine ⟨text, text', ?_⟩
  rw [← htext]
  rfl

theorem required_ne {d : PortableDraft} {digest : String} (hsha : ∀ text, (host.sha256 text).length = 64)
    (hd : draft host c.projectRoot c.service c.engine c.record c.options c.clock = .ok d)
    (hdigest : host.computePortableHandoffDigest d.toJs = some digest) :
    (∀ kv ∈ d.required digest, kv.2 ≠ "") ↔ c.record.id ≠ "" ∧ c.record.taskId ≠ "" ∧
      sourceHarnessId c.record c.options ≠ "" := by
  obtain ⟨text, text', htexts⟩ := c.required_eq hd hdigest
  have hne : ∀ text, host.sha256 text ≠ "" := by
    intro text heq
    have := hsha text
    rw [heq] at this
    cases this
  rw [← List.forall_mem_map (P := (· ≠ "")), htexts]
  simp [hne, stateOf_checkpointId]

theorem verify_iff_clean (hsha : ∀ text, (host.sha256 text).length = 64)
    (hplain : ∀ text, (host.sha256 text).toList.all isPlainChar) :
    host.verifyPortableHandoff c.handoff.toJs = some [] ↔ c.Clean := by
  obtain ⟨d, digest, hd, hdigest, hsigned⟩ := c.signed
  rw [hsigned, verify_signed hdigest (numberString_ne_empty d.workspaceRevision),
    c.required_ne hsha hd hdigest, leaks_draft hplain hd, List.any_eq_false]
  simp only [Bool.not_eq_true]
  exact ⟨fun h => ⟨h.1, h.2⟩, fun h => ⟨h.identified, h.unredacted⟩⟩

theorem survives_iff_settled (hparse : ∀ t, host.parseDate (isoText t) = some t)
    (hsha : ∀ text, (host.sha256 text).length = 64) (store : RevivingStore) :
    Survives store host.parseDate c.handoff.toJs ↔ c.Settled store := by
  obtain ⟨d, digest, hd, hdigest, hsigned⟩ := c.signed
  obtain ⟨text, text', htexts⟩ := c.required_eq hd hdigest
  have hblank : blankDigest c.handoff.toJs = .obj (presentMembers d.blank) := by
    rw [hsigned]
    exact (blankDigest_signed d digest).1
  have hsettled := @settled_draft host store _ _ _ _ _ _ hparse hsha d hd
  have hrequired : (∀ name ∈ requiredTexts, ∀ s, c.handoff.toJs.get name = .str s →
      isIsoDateString s = false) ↔ ∀ s ∈ identities host c.projectRoot c.service c.record c.options c.clock,
        isIsoDateString s = false := by
    have hnames : requiredTexts = (d.required digest).map Prod.fst := rfl
    have hdigests : ∀ text, isIsoDateString (host.sha256 text) = false := notIso_digest hsha
    have htexts' : (∀ kv ∈ d.required digest, isIsoDateString kv.2 = false) ↔
        ∀ s ∈ (d.required digest).map Prod.snd, isIsoDateString s = false := by
      rw [List.forall_mem_map]
    rw [hnames, List.forall_mem_map]
    trans ∀ kv ∈ d.required digest, isIsoDateString kv.2 = false
    · refine forall₂_congr fun kv hkv => ?_
      rw [hsigned, get_required kv hkv]
      simp
    · rw [htexts', htexts, identities]
      simp [hdigests]
  constructor
  · intro h
    obtain ⟨htexts, hredacted, hinputs, hpolicy⟩ := hsettled.mp (hblank ▸ h.settled)
    exact ⟨hrequired.mp h.required, htexts, hredacted, hinputs, hpolicy⟩
  · intro h
    refine ⟨hrequired.mpr h.identities, ?_⟩
    rw [hblank]
    exact hsettled.mpr ⟨h.texts, h.redacted, h.inputs, h.policy⟩

end Creation

/-! The store after a restart. -/

section Store

variable {host : Host} {store : RevivingStore}

/-- What a new process finds of the handoffs. -/
def found (store : RevivingStore) (collate : String → String → Ordering) (items : List (Creation host)) :
    List (String × JsValue) :=
  relisted store collate host.parseDate (items.map fun c => RestoreHost.portableEntry c.handoff)

/-- Every handoff is accepted as it was returned, and after a restart `get` and `list` give all of them
back, and these are accepted. -/
structure Accepted (store : RevivingStore) (collate : String → String → Ordering)
    (items : List (Creation host)) : Prop where
  returned : ∀ c ∈ items, host.verifyPortableHandoff c.handoff.toJs = some []
  restored : ∃ outs, (found store collate items).mapM host.restorePortable = .ok outs ∧
    (∀ c ∈ items, ∃ back, some back ∈ outs ∧
      (back.get "executionId").string = some c.record.id ∧ host.verifyPortableHandoff back = some []) ∧
    ∃ listed, host.newestFirst (outs.filterMap id) = .ok listed ∧
      ∀ v ∈ listed, host.verifyPortableHandoff v = some []

/-- The date of the handoff comes back as a date. -/
def Creation.dated (c : Creation host) : Bool := isIsoDateString (isoText c.clock.created)

/-- The handoff as a new process finds it. -/
def Creation.back (c : Creation host) (store : RevivingStore) : JsValue :=
  store.reload host.parseDate c.handoff.toJs

theorem newestFirst_ok {host : RestoreHost} {records listed : List JsValue}
    (h : host.newestFirst records = .ok listed) :
    (∀ v, v ∈ listed ↔ v ∈ records) ∧
      (records.length ≤ 1 ∨ ∀ v ∈ records, (v.get "createdAt").string ≠ none) := by
  rw [RestoreHost.newestFirst] at h
  split_ifs at h with hdates
  refine ⟨fun v => ?_, ?_⟩
  · rw [← Except.ok.inj h]
    exact mem_sortBy
  · by_contra hnot
    rw [not_or, not_le] at hnot
    obtain ⟨hlength, hnone⟩ := hnot
    push Not at hnone
    exact hdates ⟨hlength, hnone⟩

theorem exists_newestFirst {host : RestoreHost} {records : List JsValue}
    (h : records.length ≤ 1 ∨ ∀ v ∈ records, (v.get "createdAt").string ≠ none) :
    ∃ listed, host.newestFirst records = .ok listed := by
  rw [RestoreHost.newestFirst, if_neg]
  · exact ⟨_, rfl⟩
  · rintro ⟨hlength, v, hv, hnone⟩
    rcases h with h | h
    · omega
    · exact h v hv hnone

namespace Creation

variable (c : Creation host)

theorem get_revision : ∃ s, c.handoff.toJs.get "workspaceRevision" = .str s ∧ s ≠ "" := by
  obtain ⟨d, digest, -, -, hsigned⟩ := c.signed
  refine ⟨numberString d.workspaceRevision, ?_, numberString_ne_empty _⟩
  rw [hsigned]
  exact get_signed (by simp [PortableDraft.members])

theorem created_date : c.handoff.toJs.get "createdAt" = .str (isoText c.clock.created) := by
  obtain ⟨d, digest, hd, -, hsigned⟩ := c.signed
  have hcreated : d.createdAt = c.clock.created := by
    simp only [draft, except_bind_eq_ok] at hd
    obtain ⟨actions, -, hout⟩ := hd
    rw [← Except.ok.inj hout]
  rw [hsigned, ← hcreated]
  exact get_signed (by simp [PortableDraft.members])

theorem record_id : c.handoff.toJs.get "executionId" = .str c.record.id := by
  obtain ⟨d, digest, hd, -, hsigned⟩ := c.signed
  have hid : d.executionId = c.record.id := by
    simp only [draft, except_bind_eq_ok] at hd
    obtain ⟨actions, -, hout⟩ := hd
    rw [← Except.ok.inj hout]
  rw [hsigned, ← hid]
  exact get_signed (by simp [PortableDraft.members])

theorem back_date : ((c.back store).get "createdAt").string ≠ none ↔ c.dated = false := by
  rw [back, get_back c.handoff.toStoredRecord (by rw [c.created_date]; nofun), c.created_date, reload_str,
    dated]
  split_ifs with h
  · simp [h, string]
  · simp [h, string]

theorem back_passes : host.verifyPortableHandoff (c.back store) = some [] ↔
    Passes host.toRestoreHost (c.back store) := by
  have hobj : c.back store = _ := reload_toJs c.handoff.toStoredRecord
  rw [hobj]
  exact verify_iff host.toRestoreHost _

theorem back_iff (hparse : ∀ t, host.parseDate (isoText t) = some t)
    (hsha : ∀ text, (host.sha256 text).length = 64)
    (hfree : NoCollision host.toRestoreHost store c.handoff.toJs)
    (hreturned : host.verifyPortableHandoff c.handoff.toJs = some []) :
    host.verifyPortableHandoff (c.back store) = some [] ↔ c.Settled store := by
  have hpasses : Passes host.toRestoreHost c.handoff.toJs := (verify_iff _ _).mp hreturned
  rw [back_passes, ← c.survives_iff_settled hparse hsha]
  exact reload_passes_iff hparse (r := c.handoff.toStoredRecord) hpasses c.get_revision hfree

/-- A settled handoff is hashed to what it was. -/
theorem noCollision (hparse : ∀ t, host.parseDate (isoText t) = some t)
    (hsha : ∀ text, (host.sha256 text).length = 64) (hsettled : c.Settled store) :
    NoCollision host.toRestoreHost store c.handoff.toJs := by
  intro _
  obtain ⟨d, digest, -, hdigest, hsigned⟩ := c.signed
  have hsurvives := ((c.survives_iff_settled hparse hsha store).mpr hsettled).settled
  obtain ⟨hblank, hdraft⟩ := blankDigest_signed d digest
  rw [computePortableHandoffDigest_eq, hdraft, ← hblank, ← hsigned] at hdigest
  split_ifs at hdigest with hvalid
  rw [hashedText, hashedText, blankDigest_reload, (canonicalText_reload hparse hvalid hsurvives).2]

/-- A handoff that came back keeps its id: a text that is no date stays. -/
theorem back_id (hsettled : c.Settled store) :
    ((c.back store).get "executionId").string = some c.record.id := by
  have hiso : isIsoDateString c.record.id = false :=
    hsettled.identities _ (by simp [identities])
  rw [back, get_back c.handoff.toStoredRecord (by rw [c.record_id]; nofun), c.record_id, reload_str, hiso]
  rfl

end Creation

theorem length_listing {α : Type} (collate : String → String → Ordering) (key : α → String)
    (items : List α) : (listing store collate key items).length = items.length := by
  cases store with
  | jsonFile => rfl
  | postgres => exact List.length_insertionSort _ items

/-- What `restore` makes of the handoffs: each as it comes back, if all of them pass. -/
theorem restored_iff (collate : String → String → Ordering) (items : List (Creation host))
    (outs : List (Option JsValue)) : (found store collate items).mapM host.restorePortable = .ok outs ↔
      (∀ c ∈ items, host.verifyPortableHandoff (c.back store) = some []) ∧
      outs = (listing store collate (fun c => (RestoreHost.portableEntry c.handoff).1) items).map
        fun c => some (c.back store) := by
  rw [found, mapM_relisted]
  constructor
  · intro h
    have hback : ∀ c ∈ items, host.verifyPortableHandoff (c.back store) = some [] := by
      intro c hc
      obtain ⟨out, -, hout⟩ := exists_of_forall₂ h (mem_listing.mpr hc)
      exact (restorePortable_ok hout).2
    refine ⟨hback, ?_⟩
    have hsame : List.Forall₂ (fun c out => some (Creation.back c store) = out) _ outs :=
      h.imp fun c out hout => (restorePortable_ok hout).1.symm
    exact (List.forall₂_eq_eq_eq ▸ List.forall₂_map_left_iff.mpr hsame).symm
  · rintro ⟨hback, rfl⟩
    refine List.forall₂_map_right_iff.mpr (List.forall₂_same.mpr fun c hc => ?_)
    have hverify := hback c (mem_listing.mp hc)
    rw [Creation.back] at hverify ⊢
    rw [restorePortable_eq, hverify]

theorem accepted_iff (hparse : ∀ t, host.parseDate (isoText t) = some t)
    (hsha : ∀ text, (host.sha256 text).length = 64)
    (hplain : ∀ text, (host.sha256 text).toList.all isPlainChar)
    (collate : String → String → Ordering) (items : List (Creation host))
    (hfree : ∀ c ∈ items, NoCollision host.toRestoreHost store c.handoff.toJs) :
    Accepted store collate items ↔ (∀ c ∈ items, c.Clean ∧ c.Settled store) ∧
      (items.length ≤ 1 ∨ ∀ c ∈ items, c.dated = false) := by
  have hclean : ∀ c ∈ items, host.verifyPortableHandoff c.handoff.toJs = some [] ↔ c.Clean :=
    fun c _ => c.verify_iff_clean hsha hplain
  have hsettled : ∀ c ∈ items, host.verifyPortableHandoff c.handoff.toJs = some [] →
      (host.verifyPortableHandoff (c.back store) = some [] ↔ c.Settled store) :=
    fun c hc => c.back_iff hparse hsha (hfree c hc)
  have hdates : ∀ {key : Creation host → String} {outs : List (Option JsValue)},
      outs = (listing store collate key items).map (fun c => some (c.back store)) →
      (((outs.filterMap id).length ≤ 1 ∨
          ∀ v ∈ outs.filterMap id, (v.get "createdAt").string ≠ none) ↔
        (items.length ≤ 1 ∨ ∀ c ∈ items, c.dated = false)) := by
    rintro key outs rfl
    have hrecords : (List.map (fun c => some (Creation.back c store)) (listing store collate key items)).filterMap
        id = (listing store collate key items).map fun c => c.back store := by
      rw [List.filterMap_map]
      exact congrFun (List.filterMap_eq_map (f := fun c : Creation host => c.back store)) _
    rw [hrecords, List.length_map, length_listing, List.forall_mem_map]
    refine or_congr Iff.rfl (forall_congr' fun c => ?_)
    rw [mem_listing, c.back_date]
  constructor
  · rintro ⟨hreturned, outs, hok, hget, listed, hlisted, -⟩
    obtain ⟨hback, houts⟩ := (restored_iff collate items outs).mp hok
    refine ⟨fun c hc => ⟨(hclean c hc).mp (hreturned c hc), ?_⟩, ?_⟩
    · exact (hsettled c hc (hreturned c hc)).mp (hback c hc)
    · exact (hdates houts).mp (newestFirst_ok hlisted).2
  · rintro ⟨hall, hcount⟩
    have hreturned : ∀ c ∈ items, host.verifyPortableHandoff c.handoff.toJs = some [] :=
      fun c hc => (hclean c hc).mpr (hall c hc).1
    have hback : ∀ c ∈ items, host.verifyPortableHandoff (c.back store) = some [] :=
      fun c hc => (hsettled c hc (hreturned c hc)).mpr (hall c hc).2
    refine ⟨hreturned, _, (restored_iff collate items _).mpr ⟨hback, rfl⟩, fun c hc => ?_, ?_⟩
    · refine ⟨c.back store, ?_, c.back_id (hall c hc).2, hback c hc⟩
      exact List.mem_map.mpr ⟨c, mem_listing.mpr hc, rfl⟩
    · obtain ⟨listed, hlisted⟩ := @exists_newestFirst host.toRestoreHost _ ((hdates rfl).mpr hcount)
      refine ⟨listed, hlisted, fun v hv => ?_⟩
      have hmem := ((newestFirst_ok hlisted).1 v).mp hv
      obtain ⟨out, hout, rfl⟩ := List.mem_filterMap.mp hmem
      obtain ⟨c, hc, hsome⟩ := List.mem_map.mp hout
      obtain rfl := Option.some.inj hsome
      exact hback c (mem_listing.mp hc)

end Store

/-! A handoff of one file. -/

theorem noon_valid : -maxTimeMs ≤ 1772366400000 ∧ 1772366400000 ≤ maxTimeMs := by decide

def noon : Timestamp := ⟨1772366400000, noon_valid⟩

/-- SHA-256 of the content of a workspace at revision 1 and of the handoff of `notes.txt`. -/
noncomputable def ordinaryHost : Host where
  localeCompare := compareStrings
  sha256 text := if text = "rev:1\n" then
      "2e00a6089848a1739cf59f588a61fd92aa30ceebec1be33435188669fb76268c"
    else "85cc894a7fecc83ee5e7a148817c770ee8958fe46f8766732ad0948b2e3c8a3c"
  parseDate := parseIso
  hashToolArguments _ := ""
  isWorkingDirectory _ := false
  snapshot _ := []
  readFile _ _ := none

theorem ordinaryHost_sha256 (text : String) : (ordinaryHost.sha256 text).length = 64 ∧
    (ordinaryHost.sha256 text).toList.all isPlainChar := by
  have hplain : ∀ {l : List Char}, l.all isPlainChar → (String.ofList l).toList.all isPlainChar :=
    fun h => String.toList_ofList.symm ▸ h
  unfold ordinaryHost
  dsimp only
  split_ifs <;> exact ⟨String.length_ofList, hplain (by decide)⟩

/-- An execution that has written one file. -/
def oneFileRecord (path : String) : ExecutionRecord where
  id := "exec-1"
  taskId := "task-1"
  jobId := none
  agentId := none
  modelId := "model-1"
  runtimeId := "ollama"
  workerId := none
  computerId := none
  workspaceRoot := none
  status := .running
  createdAt := some noon
  startedAt := none
  completedAt := none
  input := "Write the notes"
  policy := none
  toolCalls := []
  filesChanged := [path]
  mutationHistory := []
  checks := []
  events := []
  evidence := []
  revision := some (.finite 1)
  contentFingerprint := none
  usage := none
  totalModelCalls := none
  costUSD := none
  costStatus := none

def noOptions : CreateOptions where
  sourceHarnessId := none
  targetHarnessId := none
  checkpointId := none
  budgetLimits := ⟨none, none, none, none, none⟩
  pendingActions := none
  policyContext := none

def noonClock : Clock := ⟨noon, fun _ => noon, fun _ => noon, noon⟩

theorem ok_get {α : Type} {out : Except String α} (h : out.toOption.isSome) :
    out = .ok (out.toOption.get h) := by
  cases out with
  | error e => cases h
  | ok a => rfl

/-- The handoff of such an execution. -/
noncomputable def oneFileCreation (path : String)
    (h : (createPortableHandoff ordinaryHost none none [] (oneFileRecord path) noOptions
      noonClock).toOption.isSome) : Creation ordinaryHost where
  projectRoot := none
  service := none
  engine := []
  record := oneFileRecord path
  options := noOptions
  clock := noonClock
  handoff := (createPortableHandoff ordinaryHost none none [] (oneFileRecord path) noOptions
    noonClock).toOption.get h
  created := ok_get h

theorem notes_created : (createPortableHandoff ordinaryHost none none [] (oneFileRecord "notes.txt")
    noOptions noonClock).toOption.isSome := by
  decide

theorem token_created : (createPortableHandoff ordinaryHost none none [] (oneFileRecord "token=abc.txt")
    noOptions noonClock).toOption.isSome := by
  decide

theorem notes_settled : Handoff.Settled ordinaryHost .jsonFile none none [] (oneFileRecord "notes.txt")
    noOptions noonClock where
  identities := by decide +kernel
  texts := by decide +kernel
  redacted := by decide
  inputs := by decide
  policy := by decide

theorem ordinary_handoff_accepted :
    Accepted .jsonFile compareStrings [oneFileCreation "notes.txt" notes_created] := by
  have hfree := (oneFileCreation "notes.txt" notes_created).noCollision parseIso_isoText
    (fun text => (ordinaryHost_sha256 text).1) notes_settled
  have hclean : (oneFileCreation "notes.txt" notes_created).Clean :=
    ⟨by decide +kernel, by decide +kernel⟩
  exact (accepted_iff parseIso_isoText (fun text => (ordinaryHost_sha256 text).1)
    (fun text => (ordinaryHost_sha256 text).2) compareStrings _
    (List.forall_mem_singleton.mpr hfree)).mpr
      ⟨List.forall_mem_singleton.mpr ⟨hclean, notes_settled⟩, Or.inl le_rfl⟩

/-- The path of a file is written out as it is, and then looks like a secret. -/
theorem leaked_path_rejected :
    ¬ Accepted .jsonFile compareStrings [oneFileCreation "token=abc.txt" token_created] := by
  intro h
  have hreturned := h.returned _ (List.mem_singleton.mpr rfl)
  have hclean := ((oneFileCreation "token=abc.txt" token_created).verify_iff_clean
    (fun text => (ordinaryHost_sha256 text).1) (fun text => (ordinaryHost_sha256 text).2)).mp hreturned
  have hleak : ∃ s ∈ unredactedTexts ordinaryHost none none [] (oneFileRecord "token=abc.txt") noOptions
      noonClock, secretText s = true := by decide +kernel
  obtain ⟨s, hs, hsecret⟩ := hleak
  rw [hclean.unredacted s hs] at hsecret
  cases hsecret

end Handoff

end Wazir.Checkpoints
