import Wazir.Checkpoints.Handoff
import Wazir.Checkpoints.RestartKept
import Wazir.Checkpoints.SettledTexts
import Wazir.Shared.JsonNumbers
import Wazir.Shared.NumberText

/-! Which of the handoffs that are created are accepted as they are. -/

namespace Wazir.Checkpoints

open JsValue

/-! Numbers are no secrets. -/

/-- Digits and the marks of a number. -/
def isNumberChar (c : Char) : Bool := c.isDigit || c ∈ "+-.e".toList

theorem positiveText_chars (q : ℚ) : (positiveText q).all isNumberChar := by
  have hsub : ∀ {l l' : List Char}, l ⊆ l' → l'.all isNumberChar → l.all isNumberChar :=
    fun hsub h => List.all_eq_true.mpr fun c hc => List.all_eq_true.mp h c (hsub hc)
  have hdigits : ∀ n, (Nat.toDigits 10 n).all isNumberChar := by
    refine fun n => List.all_eq_true.mpr fun c hc => ?_
    rw [isNumberChar, Nat.isDigit_of_mem_toDigits (by omega) (by omega) hc, Bool.true_or]
  have hsignificant : ∀ n, (significant (Nat.toDigits 10 n)).all isNumberChar :=
    fun n => hsub (fun c hc => mem_significant hc) (hdigits n)
  have htake : ∀ n k, ((significant (Nat.toDigits 10 n)).take k).all isNumberChar :=
    fun n k => hsub (List.take_subset _ _) (hsignificant n)
  have hdrop : ∀ n k, ((significant (Nat.toDigits 10 n)).drop k).all isNumberChar :=
    fun n k => hsub (List.drop_subset _ _) (hsignificant n)
  have hzeros : ∀ n, (List.replicate n '0').all isNumberChar := by
    refine fun n => List.all_eq_true.mpr fun c hc => ?_
    rw [(List.mem_replicate.mp hc).2]
    rfl
  have hmark : ∀ c ∈ "+-.e0".toList, isNumberChar c = true := List.all_eq_true.mp rfl
  simp only [positiveText, ← significant.eq_1]
  split_ifs <;>
    simp only [List.all_append, List.all_cons, List.all_nil, hdigits, hsignificant, htake, hdrop, hzeros,
      hmark '+' (by decide), hmark '-' (by decide), hmark '.' (by decide), hmark 'e' (by decide),
      hmark '0' (by decide), Bool.and_self]

/-- Neither of the characters that a secret follows. -/
def isPlainChar (c : Char) : Bool := c ≠ ':' && c ≠ '='

theorem isNumberChar_plain {c : Char} (h : isNumberChar c = true) : isPlainChar c = true := by
  rw [isPlainChar, Bool.and_eq_true, decide_eq_true_eq, decide_eq_true_eq]
  constructor <;> rintro rfl <;> revert h <;> decide

theorem numberString_plain (n : JsNumber) : (numberString n).toList.all isPlainChar := by
  have hpositive : ∀ q, (positiveText q).all isPlainChar := fun q =>
    List.all_eq_true.mpr fun c hc => isNumberChar_plain (List.all_eq_true.mp (positiveText_chars q) c hc)
  cases n with
  | finite q =>
    rw [numberString, template, String.toList_ofList, numberText]
    split_ifs
    · rfl
    · rw [List.all_cons, hpositive]
      rfl
    · exact hpositive q
  | nan => rfl
  | infinite negative => cases negative <;> rfl

theorem significant_ne_nil {n : ℕ} (h : 0 < n) : significant (Nat.toDigits 10 n) ≠ [] := by
  intro hnil
  have hzeros : ∀ c ∈ Nat.toDigits 10 n, c = '0' := by
    rw [significant, List.reverse_eq_nil_iff, List.dropWhile_eq_nil_iff] at hnil
    exact fun c hc => by simpa using hnil c (List.mem_reverse.mpr hc)
  cases hdigits : Nat.toDigits 10 n with
  | nil => simp at hdigits
  | cons c rest =>
    have hhead := head_toDigits h
    rw [hdigits, List.head?_cons, hzeros c (hdigits ▸ List.mem_cons_self)] at hhead
    exact hhead rfl

theorem positiveText_ne_nil {q : ℚ} (h : 0 < q) : positiveText q ≠ [] := by
  intro hnil
  have hnum : 0 < q.num.toNat := by
    have := Rat.num_pos.mpr h
    omega
  simp only [positiveText, ← significant.eq_1] at hnil
  split_ifs at hnil with hwhole hpoint hsmall hone
  · rw [List.append_eq_nil_iff] at hnil
    have hzero : q.num.toNat * 10 ^ decimalPlaces q / q.den = 0 := by
      by_contra hne
      exact significant_ne_nil (Nat.pos_of_ne_zero hne) hnil.1
    have hlength := congrArg List.length hnil.2
    rw [hnil.1, hzero] at hwhole hlength
    simp only [Nat.toDigits_zero, List.length_cons, List.length_nil, List.length_replicate] at hwhole hlength
    -- only one decimal place would leave no digit, and one place is not taken for nothing
    have hplaces : decimalPlaces q = 1 := by omega
    have hfound : 10 ^ 1 % q.den = 0 := by
      rw [decimalPlaces] at hplaces
      cases hfind : (List.range 400).find? fun e => 10 ^ e % q.den = 0 with
      | none =>
        rw [hfind] at hplaces
        cases hplaces
      | some e =>
        rw [hfind, Option.getD_some] at hplaces
        simpa [hplaces] using List.find?_some hfind
    have hden := Nat.le_of_dvd (by decide) (Nat.dvd_of_mod_eq_zero hfound)
    rw [hplaces, Nat.div_eq_zero_iff] at hzero
    have hpos := q.den_pos
    omega
  all_goals simp at hnil

theorem numberString_ne_empty (n : JsNumber) : numberString n ≠ "" := by
  intro hempty
  have hchars := congrArg String.toList hempty
  cases n with
  | finite q =>
    rw [numberString, template, String.toList_ofList, numberText] at hchars
    split_ifs at hchars with hzero hnegative
    · cases hchars
    · cases hchars
    · exact positiveText_ne_nil (lt_of_le_of_ne (not_lt.mp hnegative) (Ne.symm hzero)) hchars
  | nan => cases hchars
  | infinite negative => cases negative <;> cases hchars

theorem secretText_all {s : String} (h : s.toList.all isPlainChar) : secretText s = false := by
  refine secretText_plain fun c hc => ?_
  have := List.all_eq_true.mp h c hc
  simpa [isPlainChar] using this

theorem plain_intercalate {sep : String} (hsep : sep.toList.all isPlainChar) {items : List String}
    (h : ∀ s ∈ items, s.toList.all isPlainChar) : (sep.intercalate items).toList.all isPlainChar := by
  induction items with
  | nil => rfl
  | cons s rest ih =>
    have hs := h s List.mem_cons_self
    have hrest := ih fun t ht => h t (List.mem_cons_of_mem s ht)
    cases rest with
    | nil => rwa [String.intercalate_singleton]
    | cons t rest =>
      rw [String.intercalate_cons_cons, String.toList_append, String.toList_append, List.all_append,
        List.all_append, hs, hsep, hrest]
      rfl

variable {revision : JsNumber} {a : PortableActionSummary} {r : ExecutionRecord} {v : JsValue}

namespace Handoff

/-! Secrets of what is written out. -/

theorem leaks_presentMembers (keys : List String) {members : List (String × Option JsValue)}
    (hkeys : members.map Prod.fst = keys) (h : keys.all fun key => !secretKey key) :
    containsUnredactedSecret (.obj (presentMembers members)) =
      members.any fun m => m.2.any containsUnredactedSecret := by
  rw [containsUnredactedSecret, secretFields_eq]
  subst hkeys
  induction members with
  | nil => rfl
  | cons m rest ih =>
    obtain ⟨k, v⟩ := m
    rw [List.map_cons, List.all_cons, Bool.and_eq_true] at h
    rw [List.any_cons, ← ih h.2]
    cases v with
    | none => rfl
    | some v =>
      change (secretMember (k, v) || _) = _
      rw [secretMember, show secretKey k = false by simpa using h.1]
      rfl

theorem leaks_strings (items : List String) :
    containsUnredactedSecret (strings items) = items.any secretText := by
  rw [strings, containsUnredactedSecret, secretItems_eq, List.any_map]
  rfl

theorem leaks_action (a : PortableActionSummary) : containsUnredactedSecret a.toJs =
    (secretText a.actionId || secretText a.summary || a.toolName.any secretText ||
      a.targetPath.any secretText || secretText a.doneAt) := by
  have hkind : secretText a.kind.text = false := by cases a.kind <;> decide
  rw [PortableActionSummary.toJs, leaks_presentMembers ["actionId", "kind", "summary", "toolName",
    "targetPath", "workspaceRevision", "confirmed", "at"] rfl (by decide)]
  simp only [List.any_cons, List.any_nil, Option.any_some, Option.any_map, hkind, Bool.or_false,
    Bool.false_or, containsUnredactedSecret, Bool.or_assoc]

theorem leaks_call (c : ToolCallCheckpoint) : containsUnredactedSecret c.toJs =
    (secretText c.executionId || secretText c.callId || secretText c.stepId || secretText c.toolName ||
      containsUnredactedSecret c.input || secretText c.argumentsHash) := by
  have hstate : secretText (stateText c.state) = false := by cases c.state <;> decide
  have hclass : secretText (sideEffectText c.sideEffectClass) = false := by
    cases c.sideEffectClass <;> decide
  rw [ToolCallCheckpoint.toJs, leaks_presentMembers ["executionId", "callId", "stepId", "toolName",
    "input", "argumentsHash", "startedAt", "state", "workspaceRevision", "sideEffectClass",
    "legacyCorrelation", "finishedAt"] rfl (by decide)]
  have hnone : ∀ {α : Type} (o : Option α), o.any (fun _ => false) = false := by
    intro α o
    cases o <;> rfl
  simp only [List.any_cons, List.any_nil, Option.any_some, Option.any_map, hstate, hclass, hnone,
    Bool.or_false, containsUnredactedSecret, Bool.or_assoc]

/-! The texts of a record that are written out as they are. -/

def toolTexts (tc : ToolCallRecord) : List String := [tc.callId.getD tc.id, tc.tool]

def fileTexts (revision : JsNumber) (path : String) : List String := [mutationId revision path, path]

def stepId (e : ExecutionEvent) : String := e.stepId.getD e.id

def actionTexts (r : ExecutionRecord) (revision : JsNumber) : List String :=
  (r.toolCalls.filter (·.ok)).flatMap toolTexts ++
    (if r.mutationHistory ≠ [] then r.mutationHistory.flatMap fun m => fileTexts m.revision m.path
      else r.filesChanged.flatMap (fileTexts revision)) ++
    (r.events.filter fun e => e.kind = .stepCompleted).map stepId

def callTexts (c : ToolCallCheckpoint) : List String :=
  [c.executionId, c.callId, c.stepId, c.toolName, c.argumentsHash]

theorem any_mapM {α β : Type} {f : α → Except String β} {l : List α} {out : List β}
    (h : l.mapM f = .ok out) {p : β → Bool} {q : α → Bool} (hpq : ∀ a b, f a = .ok b → p b = q a) :
    out.any p = l.any q := by
  have hall := mapM_ok.mp h
  clear h
  induction hall with
  | nil => rfl
  | cons hab _ ih => rw [List.any_cons, List.any_cons, hpq _ _ hab, ih]

theorem toISOString_ok {d : JsDate} {s : String} (h : toISOString d = .ok s) : secretText s = false := by
  cases d with
  | none => cases h
  | some t =>
    obtain rfl := Except.ok.inj h
    exact secretText_isoText t

theorem leaks_toolAction {tc : ToolCallRecord} (h : toolAction revision tc = .ok a) :
    containsUnredactedSecret a.toJs = (toolTexts tc).any secretText := by
  rw [toolAction, except_bind_eq_ok] at h
  obtain ⟨s, hs, ha⟩ := h
  obtain rfl := Except.ok.inj ha
  simp [leaks_action, secretText_redact, toISOString_ok hs, toolTexts]

theorem leaks_mutationAction {m : FileMutation} (h : mutationAction m = .ok a) :
    containsUnredactedSecret a.toJs = (fileTexts m.revision m.path).any secretText := by
  rw [mutationAction, except_bind_eq_ok] at h
  obtain ⟨s, hs, ha⟩ := h
  obtain rfl := Except.ok.inj ha
  simp [leaks_action, secretText_redact, toISOString_ok hs, fileTexts]

theorem leaks_fileAction (revision : JsNumber) (path : String) (now : Timestamp) :
    containsUnredactedSecret (fileAction revision path now).toJs =
      (fileTexts revision path).any secretText := by
  simp [leaks_action, fileAction, secretText_redact, secretText_isoText, fileTexts]

theorem leaks_checkAction (revision : JsNumber) (check : CheckRun) (now : Timestamp) :
    containsUnredactedSecret (checkAction revision check now).toJs = false := by
  have hname : check.name.text.toList.all isPlainChar := by cases check.name <;> rfl
  have hid : secretText ("check-" ++ check.name.text ++ "-r" ++ numberString revision) = false := by
    refine secretText_all ?_
    simp only [String.toList_append, List.all_append, hname, numberString_plain]
    rfl
  simp [leaks_action, hid, checkAction, secretText_redact, secretText_isoText]

theorem leaks_stepAction {e : ExecutionEvent} (h : stepAction revision e = .ok a) :
    containsUnredactedSecret a.toJs = secretText (stepId e) := by
  rw [stepAction, except_bind_eq_ok] at h
  obtain ⟨s, hs, ha⟩ := h
  obtain rfl := Except.ok.inj ha
  simp [leaks_action, secretText_redact, toISOString_ok hs, stepId]

theorem any_mapIdx {α β : Type} (f : ℕ → α → β) (l : List α) {p : β → Bool} {q : α → Bool}
    (hpq : ∀ i a, p (f i a) = q a) : (l.mapIdx f).any p = l.any q := by
  induction l generalizing f with
  | nil => rfl
  | cons a rest ih =>
    rw [List.mapIdx_cons, List.any_cons, List.any_cons, hpq, ih _ fun i a => hpq (i + 1) a]

theorem leaks_fileActions {clock : Clock} {actions : List PortableActionSummary}
    (h : fileActions r revision clock = .ok actions) :
    actions.any (fun a => containsUnredactedSecret a.toJs) =
      (if r.mutationHistory ≠ [] then r.mutationHistory.flatMap fun m => fileTexts m.revision m.path
        else r.filesChanged.flatMap (fileTexts revision)).any secretText := by
  rw [fileActions] at h
  split_ifs at h ⊢
  · rw [List.any_flatMap]
    exact any_mapM h fun m a => leaks_mutationAction
  · obtain rfl := Except.ok.inj h
    rw [List.any_flatMap]
    exact any_mapIdx _ _ fun i path => leaks_fileAction revision path (clock.mutation i)

theorem leaks_completedActions {clock : Clock} {actions : List PortableActionSummary}
    (h : completedActions r revision clock = .ok actions) :
    actions.any (fun a => containsUnredactedSecret a.toJs) = (actionTexts r revision).any secretText := by
  simp only [completedActions, except_bind_eq_ok] at h
  obtain ⟨tools, htools, files, hfiles, steps, hsteps, hout⟩ := h
  obtain rfl := Except.ok.inj hout
  have hchecks : ((r.checks.filter (currentCheck revision)).mapIdx fun i check =>
      checkAction revision check (clock.check i)).any (fun a => containsUnredactedSecret a.toJs) =
      false :=
    (any_mapIdx (p := fun a : PortableActionSummary => containsUnredactedSecret a.toJs)
      (q := fun _ => false) _ _ fun i check =>
        leaks_checkAction revision check (clock.check i)).trans (by simp)
  rw [List.any_append, List.any_append, List.any_append, hchecks, Bool.or_false,
    any_mapM htools fun tc a => leaks_toolAction, leaks_fileActions hfiles,
    any_mapM hsteps fun e a => leaks_stepAction, actionTexts, List.any_append, List.any_append,
    List.any_flatMap, List.any_map]
  rfl

theorem leaks_unresolved (calls : List ToolCallCheckpoint) :
    (unresolvedSideEffects calls).any (fun c => containsUnredactedSecret c.toJs) =
      ((calls.filter fun c => c.state.unresolved).flatMap callTexts).any secretText := by
  rw [unresolvedSideEffects, List.any_map, List.any_flatMap]
  congr 1
  funext c
  simp only [Function.comp_apply, leaks_call, containsUnredactedSecret_redactUnknown, callTexts,
    List.any_cons, List.any_nil, Bool.or_false, Bool.false_or, Bool.or_assoc]

/-- Nothing before the names of the budgets is a word that a secret follows. -/
theorem secretText_exhausted (r : ExecutionRecord) (limits : BudgetLimits)
    (consumed : PortableBudgetState) : secretText ("BUDGET_EXHAUSTED: " ++
      ", ".intercalate (exhaustedBudgets (remainingBudget r limits consumed))) = false := by
  have hskip : ∀ names, ("BUDGET_EXHAUSTED: ".toList ++ names).tails.any secretHere =
      names.tails.any secretHere := fun _ => rfl
  have hall : ∀ name ∈ ["maxTokens", "maxToolCalls", "maxModelCalls", "maxCostUSD", "maxDurationMs"],
      name.toList.all isPlainChar = true := by decide
  rw [secretText_eq, String.toList_append, hskip, ← secretText_eq]
  refine secretText_all (plain_intercalate (by decide) fun name hname => hall name ?_)
  exact (List.filter_sublist.map Prod.fst).subset hname

theorem secretText_reason {limits : BudgetLimits} {consumed : PortableBudgetState}
    {unresolved : List ToolCallCheckpoint} : (nonResumableReason r.status unresolved
      (remainingBudget r limits consumed)).any secretText = false := by
  have hcompleted : secretText "TERMINAL_STATUS: execution is already completed" = false := by
    decide
  have hcancelled : secretText "TERMINAL_STATUS: execution is already cancelled" = false := by
    decide
  simp only [nonResumableReason]
  split_ifs
  · rw [Option.any_some, hcompleted]
  · rw [Option.any_some, hcancelled]
  · rw [Option.any_some, secretText_redact]
  · rw [Option.any_some, secretText_exhausted]
  · rfl

/-- The members that are hashed. -/
def PortableDraft.blank (d : PortableDraft) : List (String × Option JsValue) :=
  d.members ++ [("integrityDigest", some (.str ""))]

theorem blankDigest_signed (d : PortableDraft) (digest : String) :
    blankDigest (d.signed digest).toJs = .obj (presentMembers d.blank) ∧
      blankDigest d.toJs = .obj (presentMembers d.blank) := by
  have hkeep : (presentMembers d.members).filter (fun kv => kv.1 ≠ "integrityDigest") =
      presentMembers d.members := by
    have hkeys : "integrityDigest" ∉ handoffKeys := by decide
    refine List.filter_eq_self.mpr fun kv hkv => decide_eq_true fun heq => hkeys ?_
    exact heq ▸ (presentMembers_keys d.members).subset (List.mem_map_of_mem hkv)
  have hblank : presentMembers d.blank =
      presentMembers d.members ++ [("integrityDigest", JsValue.str "")] := List.filterMap_append
  constructor
  · rw [blankDigest, StoredRecord.toJs, PortableDraft.signed, entries, List.filter_append, hkeep, hblank]
    simp
  · rw [blankDigest, PortableDraft.toJs, entries, hkeep, hblank]

theorem any_toList {α : Type} (o : Option α) (p : α → Bool) : o.toList.any p = o.any p := by
  cases o with
  | none => rfl
  | some a => exact Bool.or_false _

theorem leaks_budget (b : PortableBudgetState) : containsUnredactedSecret b.toJs = false := by
  rw [PortableBudgetState.toJs]
  cases b.costStatus <;> rfl

/-- Numbers are no secrets under any name. -/
theorem leaks_remaining (remaining : List (String × Option JsNumber)) : containsUnredactedSecret
    (.obj (remaining.map fun kv => (kv.1, (kv.2.map .num).getD .null))) = false := by
  rw [containsUnredactedSecret, secretFields_eq, List.any_map, List.any_eq_false]
  intro kv _
  cases hn : kv.2 with
  | none => simp [hn, secretMember, string, containsUnredactedSecret]
  | some n => simp [hn, secretMember, string, containsUnredactedSecret]

/-- What the members of a draft give away. -/
theorem leaks_blank (d : PortableDraft) : containsUnredactedSecret (.obj (presentMembers d.blank)) =
    (secretText d.executionId || secretText d.taskId || d.jobId.any secretText ||
      secretText d.sourceHarnessId || d.targetHarnessId.any secretText || secretText d.sourceModelId ||
      secretText d.sourceRuntimeId || d.sourceWorkerId.any secretText ||
      secretText d.workspaceContentDigest || secretText d.checkpointId || secretText d.objective ||
      d.completedActions.any (fun a => containsUnredactedSecret a.toJs) ||
      d.pendingActions.any secretText || d.filesChanged.any secretText ||
      d.unresolvedSideEffects.any (fun c => containsUnredactedSecret c.toJs) ||
      d.verificationEvidenceIds.any secretText || secretFields d.policyContext ||
      d.nonResumableReason.any secretText) := by
  have hrevision : secretText (numberString d.workspaceRevision) = false :=
    secretText_all (numberString_plain d.workspaceRevision)
  have hremaining := leaks_remaining d.remainingBudget
  rw [containsUnredactedSecret] at hremaining
  have hempty : secretText "" = false := rfl
  rw [leaks_presentMembers (handoffKeys ++ ["integrityDigest"]) rfl (by decide),
    PortableDraft.blank, PortableDraft.members]
  simp only [List.any_append, List.any_cons, List.any_nil, Option.any_some, Option.any_map,
    leaks_strings, leaks_budget, hrevision, hremaining, hempty, secretText_isoText,
    containsUnredactedSecret, secretItems_eq, List.any_map, Function.comp_def, JsValue.nat,
    Bool.or_false, Bool.false_or, Bool.or_assoc]

section Create

variable (host : Host) (projectRoot : Option String) (service : Option (List ExecutionCheckpoint))
  (engine : List ToolCallCheckpoint) (r : ExecutionRecord) (options : CreateOptions) (clock : Clock)

def sourceHarnessId : String := (options.sourceHarnessId.orElse fun _ => r.agentId).getD "native"

/-- The calls without a confirmed outcome. -/
def unresolvedCalls : List ToolCallCheckpoint :=
  (mergedCheckpoints host engine r).filter fun c => c.state.unresolved

def evidenceIds : List String :=
  verificationEvidenceIds r (stateOf host projectRoot service r options clock).revision
    (reconstructExecutionState r clock.reconstruct).currentPassing

/-- All texts of the record and the options that are written out as they are. -/
def unredactedTexts : List String :=
  let handed := stateOf host projectRoot service r options clock
  [r.id, r.taskId] ++ (truthyText r.jobId).toList ++ [sourceHarnessId r options] ++
    (truthyText options.targetHarnessId).toList ++ [r.modelId, r.runtimeId] ++ (sourceWorkerId r).toList ++
    [handed.checkpointId] ++ actionTexts r handed.revision ++ r.filesChanged ++
    (unresolvedCalls host engine r).flatMap callTexts ++
    evidenceIds host projectRoot service r options clock

variable {host projectRoot service engine r options clock}

theorem truthyText_some {s : Option String} {t : String} (h : truthyText s = some t) :
    s = some t ∧ t ≠ "" := by
  obtain ⟨rfl, ht⟩ := Option.filter_eq_some_iff.mp h
  exact ⟨rfl, by simpa using ht⟩

theorem stateOf_digest : ∃ text,
    (stateOf host projectRoot service r options clock).contentDigest = host.sha256 text := by
  simp only [stateOf, handedState]
  generalize truthyText (Option.map _ _) = stored, hstored : truthyText (Option.map _ _) = stored
  cases stored with
  | none => exact ⟨_, rfl⟩
  | some digest =>
    obtain ⟨c, -, rfl⟩ := Option.map_eq_some_iff.mp (truthyText_some hstored).1
    exact ⟨_, rfl⟩

theorem stateOf_checkpointId : (stateOf host projectRoot service r options clock).checkpointId ≠ "" := by
  simp only [stateOf, handedState]
  cases hgiven : truthyText options.checkpointId with
  | some id => exact (truthyText_some hgiven).2
  | none =>
    simp only [Option.orElse_none]
    generalize truthyText (Option.map _ _) = found, hfound : truthyText (Option.map _ _) = found
    cases found with
    | none => simp
    | some id => exact (truthyText_some hfound).2

theorem leaks_draft (hplain : ∀ text, (host.sha256 text).toList.all isPlainChar) {d : PortableDraft}
    (h : draft host projectRoot service engine r options clock = .ok d) :
    containsUnredactedSecret (.obj (presentMembers d.blank)) =
      (unredactedTexts host projectRoot service engine r options clock).any secretText := by
  simp only [draft, except_bind_eq_ok] at h
  obtain ⟨actions, hactions, hout⟩ := h
  obtain rfl := Except.ok.inj hout
  have hdigest : secretText (stateOf host projectRoot service r options clock).contentDigest = false := by
    obtain ⟨text, htext⟩ := @stateOf_digest host projectRoot service r options clock
    rw [htext, secretText_all (hplain text)]
  have hpending : ∀ items : List String, (items.map redact).any secretText = false := by
    intro items
    simp [secretText_redact]
  have hpolicy : ∀ fields, secretFields (redactFields fields) = false := fun fields => by
    simpa [redactUnknown, containsUnredactedSecret] using
      containsUnredactedSecret_redactUnknown (.obj fields)
  rw [leaks_blank]
  simp only [unredactedTexts, List.any_append, List.any_cons, List.any_nil, any_toList, Bool.or_false,
    secretText_redact, leaks_completedActions hactions, leaks_unresolved, hdigest, hpending, hpolicy,
    secretText_reason, Bool.or_assoc]
  rfl

end Create

/-! Verification. -/

section Verify

variable {host : RestoreHost} {d : PortableDraft} {digest : String}

theorem get_signed {key : String} (h : (key, some v) ∈ d.members) :
    (d.signed digest).toJs.get key = v := by
  have hnodup : (d.members.map Prod.fst).Nodup := (List.nodup_append.mp handoffKeys_distinct).1
  refine StoredRecord.get_toJs _ ?_
  rw [PortableDraft.signed, List.lookup_append, lookup_presentMembers hnodup h]
  rfl

theorem get_integrityDigest : (d.signed digest).toJs.get "integrityDigest" = .str digest := by
  refine StoredRecord.get_toJs _ ?_
  have hnone : (presentMembers d.members).lookup "integrityDigest" = none := by
    refine lookup_eq_none_mem.mpr fun hmem => ?_
    have hkeys : "integrityDigest" ∉ handoffKeys := by decide
    exact hkeys ((presentMembers_keys d.members).subset hmem)
  rw [PortableDraft.signed, List.lookup_append, hnone]
  rfl

theorem missingText_iff {name : String} :
    RestoreHost.missingText v name = [] ↔ ∃ s, v.get name = .str s ∧ s ≠ "" := by
  rw [RestoreHost.missingText]
  cases v.get name <;> simp [string]

theorem missingRevision_iff : RestoreHost.missingRevision v = [] ↔
    v.get "workspaceRevision" ≠ .undefined ∧ v.get "workspaceRevision" ≠ .null ∧
      v.get "workspaceRevision" ≠ .str "" := by
  rw [RestoreHost.missingRevision]
  split
  all_goals simp_all

def requiredTexts : List String := requiredFields ++ ["workspaceContentDigest", "integrityDigest"]

/-- What makes a handoff pass. -/
structure Passes (host : RestoreHost) (v : JsValue) : Prop where
  version : (v.get "schemaVersion").number = some (.finite 1)
  texts : ∀ name ∈ requiredTexts, ∃ s, v.get name = .str s ∧ s ≠ ""
  revision : RestoreHost.missingRevision v = []
  secrets : containsUnredactedSecret (blankDigest v) = false
  digest : ∃ expected, host.computePortableHandoffDigest v = some expected ∧
    v.get "integrityDigest" = .str expected

theorem verify_iff (host : RestoreHost) (fields : List (String × JsValue)) :
    host.verifyPortableHandoff (.obj fields) = some [] ↔ Passes host (.obj fields) := by
  rw [RestoreHost.verifyPortableHandoff, if_neg (by simp [truthy, isObject])]
  simp only [Option.bind_eq_bind, Option.bind_eq_some_iff, pure, Option.some.injEq,
    List.append_eq_nil_iff, List.flatMap_eq_nil_iff, missingText_iff]
  constructor
  · rintro ⟨expected, hexpected, ⟨⟨⟨⟨⟨hversion, htexts⟩, hrevision⟩, hcontent⟩, hsigned⟩, hsecrets⟩, hdigest⟩
    refine ⟨?_, fun name hname => ?_, hrevision, by simpa using hsecrets, expected, hexpected, ?_⟩
    · by_contra hne
      rw [if_neg hne] at hversion
      cases hversion
    · rcases List.mem_append.mp hname with hname | hname
      · exact htexts name hname
      · rcases List.mem_pair.mp hname with rfl | rfl
        · exact hcontent
        · exact hsigned
    · obtain ⟨s, hs, -⟩ := hsigned
      rw [hs] at hdigest ⊢
      simpa [string] using hdigest
  · rintro ⟨hversion, htexts, hrevision, hsecrets, expected, hexpected, hdigest⟩
    refine ⟨expected, hexpected, ⟨⟨⟨⟨⟨?_, fun name hname => ?_⟩, hrevision⟩, ?_⟩, ?_⟩, ?_⟩, ?_⟩
    · rw [if_pos hversion]
    · exact htexts name (List.mem_append_left _ hname)
    · exact htexts _ (by simp [requiredTexts])
    · exact htexts _ (by simp [requiredTexts])
    · rw [hsecrets]
      rfl
    · rw [hdigest]
      exact if_pos rfl

/-- The required texts of a draft, by name. -/
def PortableDraft.required (d : PortableDraft) (digest : String) : List (String × String) :=
  [("executionId", d.executionId), ("taskId", d.taskId), ("sourceHarnessId", d.sourceHarnessId),
    ("checkpointId", d.checkpointId), ("workspaceContentDigest", d.workspaceContentDigest),
    ("integrityDigest", digest)]

theorem get_required : ∀ kv ∈ d.required digest, (d.signed digest).toJs.get kv.1 = .str kv.2 := by
  simp only [PortableDraft.required, List.forall_mem_cons]
  refine ⟨?_, ?_, ?_, ?_, ?_, get_integrityDigest, List.forall_mem_nil _⟩
  all_goals exact get_signed (by simp [PortableDraft.members])

theorem signed_texts : (∀ name ∈ requiredTexts, ∃ s, (d.signed digest).toJs.get name = .str s ∧ s ≠ "") ↔
    ∀ kv ∈ d.required digest, kv.2 ≠ "" := by
  have hnames : requiredTexts = (d.required digest).map Prod.fst := rfl
  rw [hnames, List.forall_mem_map]
  refine forall₂_congr fun kv hkv => ?_
  rw [get_required kv hkv]
  simp

theorem missingRevision_text {s : String} (h : v.get "workspaceRevision" = .str s) (hs : s ≠ "") :
    RestoreHost.missingRevision v = [] := by
  refine missingRevision_iff.mpr ?_
  rw [h]
  exact ⟨nofun, nofun, fun heq => hs (JsValue.str.inj heq)⟩

/-- A signed draft is accepted if the identities are there and it gives no secret away. -/
theorem verify_signed (hdigest : host.computePortableHandoffDigest d.toJs = some digest)
    (hrevision : numberString d.workspaceRevision ≠ "") :
    host.verifyPortableHandoff (d.signed digest).toJs = some [] ↔
      (∀ kv ∈ d.required digest, kv.2 ≠ "") ∧
        containsUnredactedSecret (.obj (presentMembers d.blank)) = false := by
  obtain ⟨hblank, hdraft⟩ := blankDigest_signed d digest
  refine (verify_iff host _).trans ⟨fun h => ?_, fun h => ?_⟩
  · have hsecrets := h.secrets
    exact ⟨signed_texts.mp h.texts, hblank ▸ hsecrets⟩
  · have hversion : (d.signed digest).toJs.get "schemaVersion" = .nat 1 :=
      get_signed (by simp [PortableDraft.members])
    have hnumber : (d.signed digest).toJs.get "workspaceRevision" =
        .str (numberString d.workspaceRevision) :=
      get_signed (by simp [PortableDraft.members])
    refine ⟨congrArg JsValue.number hversion, signed_texts.mpr h.1,
      missingRevision_text hnumber hrevision, ?_, digest, ?_, get_integrityDigest⟩
    · exact (congrArg containsUnredactedSecret hblank).trans h.2
    · rw [RestoreHost.computePortableHandoffDigest] at hdigest ⊢
      rw [hdraft] at hdigest
      exact (congrArg _ (congrArg canonicalizeForDigest hblank)).trans hdigest

end Verify

end Handoff

end Wazir.Checkpoints
