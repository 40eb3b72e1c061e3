import Wazir.Goals.RecoveryBounds

/-! How new a repair hypothesis is. The service compares a proposal with the hypotheses it kept of
those tried, one of each idea; but to reword is not transitive, so a proposal may reword a
hypothesis that was tried and not kept. -/

namespace Wazir.Goals

/-- The hypotheses of the earlier failed attempts of the target and of the one at hand. -/
def DecideInput.triedHypotheses (input : DecideInput) : List String :=
  (input.priorAttempts.filter input.isPrior).filterMap (·.repairHypothesis) ++
    input.attempt.repairHypothesis.toList

/-- What a repair should come with: a usable hypothesis, not an unsafe one of an injected
generator, and no rewording of any that was tried. -/
structure NovelRepair (host : RecoveryHost) (input : DecideInput) (request : RepairHypothesisRequest)
    (d : RecoveryVerdict) (hypothesis : String) : Prop where
  given : d.hypothesis = some hypothesis
  nonempty : hypothesis ≠ ""
  sanitized : ∃ text, hypothesis = sanitizeText text
  safe : isUnsafeHypothesis hypothesis = true → hypothesis ∈ request.ruleBased.map sanitizeText
  novel : ∀ prior ∈ input.triedHypotheses, isDuplicateHypothesis host.fold hypothesis prior = false

@[simp] theorem request_priorHypotheses (host : RecoveryHost) (f : Failing) (target : RecoveryTarget) :
    (f.request host target).priorHypotheses = uniqueHypotheses host f.tried := rfl

/-! What the generators' candidates come to. -/

section Proposing

variable (host : RecoveryHost)

/-- A candidate that is usable and rewords none of `prior`. -/
def Acceptable (trusted : Bool) (prior : List String) (candidate : String) : Bool :=
  candidate ≠ "" && (trusted || !isUnsafeHypothesis candidate) &&
    !prior.any fun h => isDuplicateHypothesis host.fold candidate h

theorem considerCandidates_fst (generatorId : String) (trusted : Bool) (prior : List String)
    (raws : List JsValue) (p : Proposals) :
    (considerCandidates host generatorId trusted prior raws p).1 =
      (raws.map sanitizeHypothesis).find? (Acceptable host trusted prior) := by
  induction raws generalizing p with
  | nil => rfl
  | cons raw rest ih =>
    rw [List.map_cons, considerCandidates]
    by_cases hempty : sanitizeHypothesis raw = ""
    · rw [if_pos hempty, ih, List.find?_cons_of_neg (by simp [Acceptable, hempty])]
    rw [if_neg hempty]
    by_cases hunsafe : (!trusted && isUnsafeHypothesis (sanitizeHypothesis raw)) = true
    · rw [if_pos hunsafe, ih, List.find?_cons_of_neg]
      simp only [Bool.and_eq_true, Bool.not_eq_true'] at hunsafe
      simp [Acceptable, hunsafe]
    rw [if_neg hunsafe]
    have hsafe : (trusted || !isUnsafeHypothesis (sanitizeHypothesis raw)) = true := by
      revert hunsafe
      cases trusted <;> simp
    by_cases hknown : (prior.any fun h =>
        isDuplicateHypothesis host.fold (sanitizeHypothesis raw) h) = true
    · rw [if_pos hknown, ih, List.find?_cons_of_neg (by simp [Acceptable, hknown])]
    · rw [if_neg hknown, List.find?_cons_of_pos]
      simp only [Bool.not_eq_true] at hknown
      simp [Acceptable, hempty, hsafe, hknown]

def GeneratorCall.candidates (call : GeneratorCall) : List String :=
  match call.outcome with
  | .ok proposed => ((proposed.array.getD []).take 32).map sanitizeHypothesis
  | .error _ => []

/-- What an injected generator gets considered. -/
def injectedCandidates (injected : Option GeneratorCall) : List String :=
  (injected.map GeneratorCall.candidates).getD []

def ruleBasedCandidates (request : RepairHypothesisRequest) : List String :=
  (request.ruleBased.take 32).map sanitizeText

/-- What is proposed where an injected generator has nothing to offer. -/
def ruleBasedOutcome (request : RepairHypothesisRequest) (p : Proposals) : Option String × List String :=
  match considerCandidates host "rule-based-v1" true request.priorHypotheses
    ((request.ruleBased.take 32).map .str) p with
  | (some hypothesis, p) => (some hypothesis, p.reasons)
  | (none, p) => (none, p.reasons ++ p.rejectedNote)

theorem proposeHypothesis_fst (injected : Option GeneratorCall) (request : RepairHypothesisRequest) :
    (proposeHypothesis host injected request).1 =
      ((injectedCandidates injected).find? (Acceptable host false request.priorHypotheses)).or
        ((ruleBasedCandidates request).find? (Acceptable host true request.priorHypotheses)) := by
  have hrules : ∀ p, (considerCandidates host "rule-based-v1" true request.priorHypotheses
      ((request.ruleBased.take 32).map .str) p).1 =
        (ruleBasedCandidates request).find? (Acceptable host true request.priorHypotheses) := by
    intro p
    rw [considerCandidates_fst, List.map_map]
    rfl
  have hfallback : ∀ p : Proposals, (ruleBasedOutcome host request p).1 =
        (ruleBasedCandidates request).find? (Acceptable host true request.priorHypotheses) := by
    intro p
    rw [← hrules p, ruleBasedOutcome]
    split <;> simp_all
  unfold proposeHypothesis
  cases injected with
  | none => exact hfallback _
  | some call =>
    cases houtcome : call.outcome with
    | error message =>
      simp only [injectedCandidates, GeneratorCall.candidates, Option.map_some, Option.getD_some,
        houtcome, List.find?_nil, Option.none_or]
      exact hfallback _
    | ok proposed =>
      simp only [injectedCandidates, GeneratorCall.candidates, Option.map_some, Option.getD_some,
        houtcome]
      have hfirst := considerCandidates_fst host call.id false request.priorHypotheses
        ((proposed.array.getD []).take 32) ⟨0, []⟩
      cases hc : considerCandidates host call.id false request.priorHypotheses
        ((proposed.array.getD []).take 32) ⟨0, []⟩ with
      | mk found p =>
        rw [hc] at hfirst
        rw [← hfirst]
        cases found with
        | none => exact hfallback p
        | some hypothesis => rfl

end Proposing

/-! Novelty. -/

variable {injected : Option GeneratorCall} {d : RecoveryVerdict}

section

variable {host : RecoveryHost} {limits : RecoveryLimits} {input : DecideInput} {f : Failing}

theorem decideAtOnce_ne_repair (h : decideAtOnce host limits input f = some d) :
    d.action ≠ .repair := by
  unfold decideAtOnce at h
  split_ifs at h <;> cases h <;> simp [Failing.decision]

theorem decideRecovery_ok :
    decideRecovery host limits injected input = .ok d ↔ ∃ f, input.assess host = .ok f ∧
      (decideAtOnce host limits input f).getD (decideRepair host limits input f injected) = d := by
  simp [decideRecovery, pure, Except.pure]

/-- A repair comes with the hypothesis that was proposed. -/
theorem decideRepair_repair (h : (decideRepair host limits input f injected).action = .repair) :
    ∃ hypothesis, (proposeHypothesis host injected (f.request host input.target)).1 =
        some hypothesis ∧
      (decideRepair host limits input f injected).hypothesis = some hypothesis := by
  unfold decideRepair at h ⊢
  split at h
  · cases h
  · rename_i hypothesis reasons hproposed
    rw [hproposed]
    exact ⟨hypothesis, rfl, rfl⟩

theorem decideRepair_of_proposed {hypothesis : String}
    (h : (proposeHypothesis host injected (f.request host input.target)).1 = some hypothesis) :
    (decideRepair host limits input f injected).action = .repair ∧
      (decideRepair host limits input f injected).hypothesis = some hypothesis := by
  unfold decideRepair
  split
  · rename_i reasons hproposed
    rw [hproposed] at h
    cases h
  · rename_i found reasons hproposed
    rw [hproposed] at h
    cases h
    exact ⟨rfl, rfl⟩

end

/-- Whatever `candidate` rewords of what was tried, it also rewords a hypothesis that was kept. -/
def Represented (host : RecoveryHost) (input : DecideInput) (kept : List String)
    (candidate : String) : Prop :=
  ∀ prior ∈ input.triedHypotheses, isDuplicateHypothesis host.fold candidate prior = true →
    ∃ h ∈ kept, isDuplicateHypothesis host.fold candidate h = true

/-- The kept hypotheses stand for all that were tried: for each text a generator may propose and get
accepted, and for the proposal the rule-based generator falls back on. -/
structure KeptSpeakForAll (host : RecoveryHost) (input : DecideInput)
    (request : RepairHypothesisRequest) : Prop where
  proposed : ∀ text, sanitizeText text ≠ "" → isUnsafeHypothesis (sanitizeText text) = false →
    Represented host input request.priorHypotheses (sanitizeText text)
  fallback : ∀ candidate,
    (ruleBasedCandidates request).find? (Acceptable host true request.priorHypotheses) =
      some candidate → Represented host input request.priorHypotheses candidate

section

variable {host : RecoveryHost} {limits : RecoveryLimits} {input : DecideInput} {f : Failing}

theorem acceptable_iff {trusted : Bool} {prior : List String} {candidate : String} :
    Acceptable host trusted prior candidate = true ↔
      candidate ≠ "" ∧ (trusted = true ∨ isUnsafeHypothesis candidate = false) ∧
        ∀ h ∈ prior, isDuplicateHypothesis host.fold candidate h = false := by
  simp [Acceptable, and_assoc]

theorem mem_injectedCandidates {candidate : String} (h : candidate ∈ injectedCandidates injected)
    (hne : candidate ≠ "") :
    ∃ text, candidate = sanitizeText text := by
  cases injected with
  | none => simp [injectedCandidates] at h
  | some call =>
    simp only [injectedCandidates, Option.map_some, Option.getD_some, GeneratorCall.candidates] at h
    split at h
    · obtain ⟨raw, -, rfl⟩ := List.mem_map.mp h
      unfold sanitizeHypothesis at hne ⊢
      cases hs : raw.string with
      | none => simp [hs] at hne
      | some text => exact ⟨text, by simp⟩
    · simp at h

/-- The generators' choice is new against what was kept, so against all that this speaks for. -/
theorem novel_of_kept {hypothesis : String}
    (hkept : KeptSpeakForAll host input (f.request host input.target))
    (hproposed : (proposeHypothesis host injected (f.request host input.target)).1 =
      some hypothesis) (hd : d.hypothesis = some hypothesis) :
    NovelRepair host input (f.request host input.target) d hypothesis := by
  rw [proposeHypothesis_fst, Option.or_eq_some_iff] at hproposed
  rcases hproposed with hfound | ⟨-, hfound⟩
  · obtain ⟨hne, hsafe, hnew⟩ := acceptable_iff.mp (List.find?_some hfound)
    have hsafe : isUnsafeHypothesis hypothesis = false := by simpa using hsafe
    obtain ⟨text, rfl⟩ := mem_injectedCandidates (List.mem_of_find?_eq_some hfound) hne
    refine ⟨hd, hne, ⟨text, rfl⟩, fun hunsafe => ?_, fun prior hprior => ?_⟩
    · rw [hsafe] at hunsafe
      cases hunsafe
    · by_contra hdup
      obtain ⟨h, hmem, hh⟩ := hkept.proposed text hne hsafe prior hprior (by simpa using hdup)
      rw [hnew h hmem] at hh
      cases hh
  · obtain ⟨hne, -, hnew⟩ := acceptable_iff.mp (List.find?_some hfound)
    obtain ⟨text, hmem, rfl⟩ := List.mem_map.mp (List.mem_of_find?_eq_some hfound)
    refine ⟨hd, hne, ⟨text, rfl⟩, fun _ => List.mem_map_of_mem (List.mem_of_mem_take hmem),
      fun prior hprior => ?_⟩
    by_contra hdup
    obtain ⟨h, hmem, hh⟩ := hkept.fallback _ hfound prior hprior (by simpa using hdup)
    rw [hnew h hmem] at hh
    cases hh

variable (limits) in
/-- A text that rewords something tried and nothing kept is accepted, if a generator proposes it. -/
theorem kept_of_novel
    (hnovel : ∀ injected, (decideRepair host limits input f injected).action = .repair →
      ∃ hypothesis, NovelRepair host input (f.request host input.target)
        (decideRepair host limits input f injected) hypothesis) :
    KeptSpeakForAll host input (f.request host input.target) := by
  have hchosen : ∀ (injected : Option GeneratorCall) (candidate : String),
      (proposeHypothesis host injected (f.request host input.target)).1 = some candidate →
        Represented host input (f.request host input.target).priorHypotheses candidate := by
    intro injected candidate hproposed prior hprior hdup
    have hrepair : (decideRepair host limits input f injected).action = .repair ∧
        (decideRepair host limits input f injected).hypothesis = some candidate :=
      decideRepair_of_proposed hproposed
    obtain ⟨hypothesis, h⟩ := hnovel injected hrepair.1
    obtain rfl : candidate = hypothesis := Option.some.inj (hrepair.2.symm.trans h.given)
    rw [h.novel prior hprior] at hdup
    cases hdup
  constructor
  · intro text hne hsafe prior hprior hdup
    by_contra hnone
    have hacceptable : Acceptable host false (f.request host input.target).priorHypotheses
        (sanitizeText text) = true := by
      refine acceptable_iff.mpr ⟨hne, .inr hsafe, fun h hmem => ?_⟩
      by_contra hh
      exact hnone ⟨h, hmem, by simpa using hh⟩
    refine hnone (hchosen (some ⟨"model-adapter-v1", .ok (.arr [.str text])⟩) _ ?_ prior hprior hdup)
    rw [proposeHypothesis_fst]
    have hfound : (injectedCandidates (some ⟨"model-adapter-v1", .ok (.arr [.str text])⟩)).find?
        (Acceptable host false (f.request host input.target).priorHypotheses) =
          some (sanitizeText text) :=
      List.find?_cons_of_pos hacceptable
    rw [hfound]
    rfl
  · intro candidate hfound
    refine hchosen none candidate ?_
    rw [proposeHypothesis_fst, hfound]
    rfl

end

/-- Repairs are new against the whole history, whatever a generator proposes, exactly when no
hypothesis is asked for or those kept speak for all that were tried. -/
theorem repairs_novel_iff (host : RecoveryHost) (limits : RecoveryLimits) (input : DecideInput) :
    (∀ injected d, decideRecovery host limits injected input = .ok d → d.action = .repair →
        ∃ f hypothesis, input.assess host = .ok f ∧
          NovelRepair host input (f.request host input.target) d hypothesis) ↔
      ∀ f, input.assess host = .ok f → decideAtOnce host limits input f = none →
        KeptSpeakForAll host input (f.request host input.target) := by
  constructor
  · intro h f hf hlater
    refine kept_of_novel limits fun injected hrepair => ?_
    have hd : decideRecovery host limits injected input =
        .ok (decideRepair host limits input f injected) :=
      decideRecovery_ok.mpr ⟨f, hf, by rw [hlater, Option.getD_none]⟩
    obtain ⟨g, hypothesis, hg, hnovel⟩ := h injected _ hd hrepair
    obtain rfl : f = g := Except.ok.inj (hf.symm.trans hg)
    exact ⟨hypothesis, hnovel⟩
  · intro h injected d hd hrepair
    obtain ⟨f, hf, rfl⟩ := decideRecovery_ok.mp hd
    have hlater : decideAtOnce host limits input f = none := by
      by_contra hsome
      obtain ⟨e, he⟩ := Option.ne_none_iff_exists'.mp hsome
      rw [he, Option.getD_some] at hrepair
      exact decideAtOnce_ne_repair he hrepair
    rw [hlater, Option.getD_none] at hrepair ⊢
    obtain ⟨hypothesis, hproposed, hgiven⟩ := decideRepair_repair hrepair
    exact ⟨f, hypothesis, hf, novel_of_kept (h f hf hlater) hproposed hgiven⟩

namespace NovelRepairs

open RecoveryBounds

def first : String := "cut log loop if end tag has no key"
def second : String := "cut log loop if end tag has no row"
def third : String := "cut log scan if end tag has no row"

/-- Failed attempts under the first two hypotheses, and a third one, each failing differently. -/
def input : DecideInput where
  run := run
  target := target
  attempt := attempt 2
  priorAttempts :=
    [{ attempt 0 with
        outcome := some .failed, error := some ⟨.executionFailed, "exit 1", false, []⟩
        repairHypothesis := some first },
      { attempt 1 with
        outcome := some .failed, error := some ⟨.duplicate, "exit 2", false, []⟩
        repairHypothesis := some second }]
  gate := none
  error := some ⟨.verificationFailed, "exit 3", false, []⟩

def proposal : GeneratorCall := ⟨"model-adapter-v1", .ok (.arr [.str third])⟩

def error : GoalStudioFailure := ⟨.verificationFailed, "exit 3", false, []⟩

def failing : Failing := input.failing plainHost error

theorem tried : failing.tried = [some first, some second, none] := by rfl

theorem kept : uniqueHypotheses plainHost failing.tried = [first] := by
  have hfirst : sanitizeText first = first := by decide
  have hsecond : sanitizeText second = second := by decide
  have hne : first ≠ "" ∧ second ≠ "" := by decide
  have hreworded : isDuplicateHypothesis plainHost.fold second first = true := by decide
  simp [tried, uniqueHypotheses, hfirst, hsecond, hne, hreworded]

theorem asked : decideAtOnce plainHost (resolveRecoveryLimits []) input failing = none := by
  have hterminal : failing.current.classification.terminal = false := by decide
  have hretryable : failing.current.classification.retryable = false := by decide
  have hcap : attemptCapReached (resolveRecoveryLimits []) input failing = false := by decide
  have hsame : failing.occurrences = 1 := by decide
  have hused : repairsUsed plainHost input failing = 1 := by
    rw [repairsUsed, kept]
    rfl
  have hlimits : (resolveRecoveryLimits []).maxSameActionNoProgress = 2 ∧
      (resolveRecoveryLimits []).maxRepairsPerTask = 3 := by decide
  simp [decideAtOnce, hterminal, hretryable, hcap, hsame, hused, hlimits]

end NovelRepairs

open RecoveryBounds NovelRepairs in
/-- The second hypothesis rewords the first and was not kept; the third rewords it. -/
theorem reworded_hypothesis_chosen :
    (∃ d, decideRecovery plainHost (resolveRecoveryLimits []) (some proposal) input = .ok d ∧
      d.action = .repair ∧ d.hypothesis = some third) ∧
    second ∈ input.triedHypotheses ∧ isDuplicateHypothesis plainHost.fold third second = true := by
  refine ⟨?_, by decide, by decide⟩
  have hthird : sanitizeText third = third := by decide
  have hsafe : isUnsafeHypothesis third = false := by decide
  have hnew : isDuplicateHypothesis plainHost.fold third first = false := by decide
  have hacceptable : Acceptable plainHost false (failing.request plainHost target).priorHypotheses
      (sanitizeText third) = true := by
    rw [hthird, request_priorHypotheses, kept]
    refine acceptable_iff.mpr ⟨by decide, .inr hsafe, fun h hmem => ?_⟩
    rw [List.mem_singleton.mp hmem]
    exact hnew
  have hproposed : (proposeHypothesis plainHost (some proposal)
      (failing.request plainHost target)).1 = some third := by
    have hfound : (injectedCandidates (some proposal)).find?
        (Acceptable plainHost false (failing.request plainHost target).priorHypotheses) =
          some (sanitizeText third) :=
      List.find?_cons_of_pos hacceptable
    rw [proposeHypothesis_fst, hfound, hthird]
    rfl
  have hd : decideRecovery plainHost (resolveRecoveryLimits []) (some proposal) input =
      .ok ((decideAtOnce plainHost (resolveRecoveryLimits []) input failing).getD
        (decideRepair plainHost (resolveRecoveryLimits []) input failing (some proposal))) :=
    decideRecovery_eq rfl rfl
  rw [asked, Option.getD_none] at hd
  exact ⟨_, hd, decideRepair_of_proposed hproposed⟩

end Wazir.Goals
