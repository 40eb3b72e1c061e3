import Wazir.Goals.Recovery

/-! Recovery ends. A target that keeps failing is decided on again after each retry and each
repair, its earlier failed attempts at hand; the attempt cap blocks it, whatever the failures and
proposals are, and a run of retries is cut short before. -/

namespace Wazir.Goals

/-! Limits. -/

theorem clampInt_bounds {value : Option JsNumber} {fallback lower upper : ℤ}
    (hfallback : lower ≤ fallback) (h : lower ≤ upper) : lower ≤ clampInt value fallback lower upper := by
  unfold clampInt
  split
  · exact le_min h (le_max_left _ _)
  · exact hfallback

theorem maxTransientRetries_nonneg (sources : List (Option RecoveryLimitSource)) :
    0 ≤ (resolveRecoveryLimits sources).maxTransientRetries :=
  clampInt_bounds (by decide) (by decide)

theorem maxRepairsPerTask_nonneg (sources : List (Option RecoveryLimitSource)) :
    0 ≤ (resolveRecoveryLimits sources).maxRepairsPerTask :=
  clampInt_bounds (by decide) (by decide)

theorem maxAttemptsFor_pos (sources : List (Option RecoveryLimitSource)) :
    1 ≤ maxAttemptsFor (resolveRecoveryLimits sources) := by
  have hrepairs := maxRepairsPerTask_nonneg sources
  have hretries := maxTransientRetries_nonneg sources
  unfold maxAttemptsFor
  refine le_min (by decide) ?_
  nlinarith

/-! Classification. -/

/-- The failures no retry and no repair gets around: a policy denial, exhaustion reported upstream,
a lost lease. -/
def EndsRecovery (error : GoalStudioFailure) (gate : Option AcceptanceGateDecision) : Prop :=
  (classifyGoalFailure (some error) gate).failureClass = .policy ∨
    (classifyGoalFailure (some error) gate).failureClass = .noProgress ∨
    error.code ∈ policyCodes ∨ error.code = .noProgress ∨ error.code = .retryExhausted ∨
    error.code = .staleLease

theorem terminal_of_endsRecovery {error : GoalStudioFailure} {gate : Option AcceptanceGateDecision}
    (h : EndsRecovery error gate) : (classifyGoalFailure (some error) gate).terminal = true := by
  unfold EndsRecovery classifyGoalFailure at *
  dsimp only [Option.map_some] at *
  by_cases hpolicy : isPolicyFailure (some error) = true
  · rw [if_pos hpolicy]
  have hcode : error.code ∉ policyCodes := fun hmem => hpolicy (by simp [isPolicyFailure, hmem])
  rw [if_neg hpolicy] at h ⊢
  by_cases hexhausted : some error.code = some .noProgress ∨ some error.code = some .retryExhausted
  · rw [if_pos hexhausted]
  rw [if_neg hexhausted] at h ⊢
  by_cases hnon : (coreCategoryOf (some error)).1 = some .nonRecoverable ∧
      (coreCategoryOf (some error)).2 = false
  · rw [if_pos hnon]
  rw [if_neg hnon] at h ⊢
  by_cases hlease : some error.code = some .staleLease
  · rw [if_pos hlease]
  rw [if_neg hlease] at h ⊢
  rcases h with h | h | h | h | h | h
  · (repeat' split at h) <;> cases h
  · (repeat' split at h) <;> cases h
  · exact absurd h hcode
  · exact absurd (.inl (congrArg some h)) hexhausted
  · exact absurd (.inr (congrArg some h)) hexhausted
  · exact absurd (congrArg some h) hlease

theorem ite_retryable {c : Prop} [Decidable c] {a b a' b' : FailureClassification}
    (ha : a.retryable = a'.retryable) (hb : b.retryable = b'.retryable) :
    (if c then a else b).retryable = (if c then a' else b').retryable := by
  by_cases hc : c
  · rw [if_pos hc, if_pos hc, ha]
  · rw [if_neg hc, if_neg hc, hb]

theorem ite_not_retryable {c : Prop} [Decidable c] {a b : FailureClassification}
    (ha : a.retryable = false) (hb : b.retryable = false) :
    (if c then a else b).retryable = false := by
  by_cases hc : c
  · rw [if_pos hc, ha]
  · rw [if_neg hc, hb]

/-- Apart from a failure that ends recovery, the gate has no say in what a retry may achieve. -/
theorem retryable_without_gate {error : GoalStudioFailure} {gate : Option AcceptanceGateDecision}
    (h : (classifyGoalFailure (some error) gate).terminal = false) :
    (classifyGoalFailure (some error) none).retryable =
      (classifyGoalFailure (some error) gate).retryable := by
  unfold classifyGoalFailure at *
  dsimp only [Option.map_some] at *
  have hnone : ¬ ((none : Option AcceptanceGateDecision).any (fun g => g.decision = .blocked) = true ∧
      (some error.code = none ∨ some error.code = some .verificationFailed)) := by simp
  rw [if_neg hnone]
  by_cases hblocked : gate.any (fun g => g.decision = .blocked) = true ∧
      (some error.code = none ∨ some error.code = some .verificationFailed)
  · rw [if_pos hblocked] at h
    (repeat' split at h) <;> cases h
  rw [if_neg hblocked]
  iterate 7 refine ite_retryable rfl ?_
  -- what is left is repairable, with or without a gate
  exact (ite_not_retryable rfl (ite_not_retryable rfl rfl)).trans
    (ite_not_retryable rfl (ite_not_retryable rfl rfl)).symm

/-! Decisions. -/

variable {f : Failing}

section Decisions

variable {host : RecoveryHost} {limits : RecoveryLimits} {injected : Option GeneratorCall}
  {input : DecideInput} {error : GoalStudioFailure} {d : RecoveryVerdict}

/-- The failure an input is about, as it is decided on. -/
def DecideInput.failing (host : RecoveryHost) (input : DecideInput) (error : GoalStudioFailure) :
    Failing :=
  ⟨error, input.prior host, observe host input.target.id input.attempt (some error) input.gate⟩

theorem decideRecovery_eq (own : input.attempt.targetId = input.target.id)
    (hf : input.failure = .ok error) :
    decideRecovery host limits injected input =
      .ok ((decideAtOnce host limits input (input.failing host error)).getD
        (decideRepair host limits input (input.failing host error) injected)) := by
  simp [decideRecovery, DecideInput.assess, DecideInput.failing, own, hf, bind, Except.bind, pure,
    Except.pure]

theorem decideAtOnce_terminal (h : f.current.classification.terminal = true) :
    (decideAtOnce host limits input f).map (·.action) = some .block := by
  simp [decideAtOnce, h, Failing.decision]

theorem decideAtOnce_cap (h : attemptCapReached limits input f = true) :
    (decideAtOnce host limits input f).map (·.action) = some .block := by
  cases hterminal : f.current.classification.terminal with
  | true => exact decideAtOnce_terminal hterminal
  | false => simp [decideAtOnce, hterminal, h, Failing.decision]

theorem decideRepair_action :
    (decideRepair host limits input f injected).action ≠ .retry := by
  unfold decideRepair
  split <;> simp [Failing.decision]

/-- What a retry is granted on. -/
theorem decideAtOnce_retry (h : ((decideAtOnce host limits input f).getD
      (decideRepair host limits input f injected)).action = .retry) :
    f.current.classification.terminal = false ∧ f.current.classification.retryable = true ∧
      (f.streak : ℤ) ≤ limits.maxTransientRetries := by
  unfold decideAtOnce at h
  split_ifs at h with hterminal hcap hretryable hstreak hsame hbudget
  · cases h
  · cases h
  · cases h
  · exact ⟨by simpa using hterminal, hretryable, not_lt.mp hstreak⟩
  · cases h
  · cases h
  · exact absurd h decideRepair_action

/-- A failure that ends recovery blocks the target at once. -/
theorem endsRecovery_blocks (host : RecoveryHost) (limits : RecoveryLimits)
    (injected : Option GeneratorCall) (own : input.attempt.targetId = input.target.id)
    (hf : input.failure = .ok error) (hends : EndsRecovery error input.gate) :
    ∃ d, decideRecovery host limits injected input = .ok d ∧ d.action = .block := by
  refine ⟨_, decideRecovery_eq own hf, ?_⟩
  have hblock : (decideAtOnce host limits input (input.failing host error)).map (·.action) =
      some .block := decideAtOnce_terminal (terminal_of_endsRecovery hends)
  obtain ⟨d, hd, haction⟩ := Option.map_eq_some_iff.mp hblock
  rw [hd, Option.getD_some, haction]

end Decisions

/-! A target that keeps failing. -/

/-- The attempt as the caller is taken to record it: failed, with the error that was decided on. (The
controller writes the class of the decision over the error's own.) -/
def DecideInput.recorded (input : DecideInput) : TargetAttempt :=
  { input.attempt with outcome := some .failed, error := input.failure.toOption }

/-- The calls for one target, one failed attempt after the other, each with those before it. -/
structure KeepsFailing (calls : ℕ → DecideInput) : Prop where
  target : ∀ n, (calls n).target.id = (calls 0).target.id
  own : ∀ n, (calls n).attempt.targetId = (calls n).target.id
  fails : ∀ n, ∃ error, (calls n).failure = .ok error
  numbered : ∀ m n, m < n → (calls m).attempt.attempt < (calls n).attempt.attempt
  distinct : ∀ m n, m < n → (calls m).attempt.id ≠ (calls n).attempt.id
  prior : ∀ n, (calls n).priorAttempts = (List.range n).map fun m => (calls m).recorded

section Run

variable {host : RecoveryHost} {limits : RecoveryLimits} {calls : ℕ → DecideInput}
  (h : KeepsFailing calls)

include h

theorem KeepsFailing.prior_eq (n : ℕ) :
    (calls n).prior host = (List.range n).map fun m =>
      observe host (calls n).target.id (calls m).recorded (calls m).recorded.error none := by
  have hsorted : ((List.range n).map fun m => (calls m).recorded).Pairwise fun a b =>
      compareAttempts host a b ≠ .gt := by
    refine List.pairwise_map.mpr (List.pairwise_lt_range.imp fun {k m} hkm => ?_)
    have hlt : compare (calls k).attempt.attempt (calls m).attempt.attempt = .lt :=
      compare_lt_iff_lt.mpr (h.numbered k m hkm)
    simp [compareAttempts, DecideInput.recorded, hlt]
  have hall : ∀ a ∈ (List.range n).map fun m => (calls m).recorded, (calls n).isPrior a = true := by
    intro a ha
    obtain ⟨m, hm, rfl⟩ := List.mem_map.mp ha
    have hid := h.distinct m n (List.mem_range.mp hm)
    simp [DecideInput.isPrior, DecideInput.recorded, isFailedAttempt, h.own m, h.target m,
      h.target n, hid]
  unfold DecideInput.prior
  rw [h.prior n, List.filter_eq_self.mpr hall, sortBy,
    List.Pairwise.insertionSort_eq (hsorted.imp fun hab => by simpa using hab), List.map_map]
  rfl

theorem KeepsFailing.blocked (injected : Option GeneratorCall) {n : ℕ}
    (hn : maxAttemptsFor limits ≤ n + 1) :
    ∃ d, decideRecovery host limits injected (calls n) = .ok d ∧ d.action = .block := by
  obtain ⟨error, hf⟩ := h.fails n
  refine ⟨_, decideRecovery_eq (h.own n) hf, ?_⟩
  have hlength : ((calls n).failing host error).prior.length = n := by
    simp [DecideInput.failing, h.prior_eq]
  have hcap : attemptCapReached limits (calls n) ((calls n).failing host error) = true := by
    simp [attemptCapReached, hlength, hn]
  have hblock : (decideAtOnce host limits (calls n) ((calls n).failing host error)).map
      (·.action) = some .block := decideAtOnce_cap hcap
  obtain ⟨d, hd, haction⟩ := Option.map_eq_some_iff.mp hblock
  rw [hd, Option.getD_some, haction]

/-- An attempt that was retried stays a retryable failure in the record. -/
theorem KeepsFailing.retried {injected : Option GeneratorCall} {m : ℕ} {d : RecoveryVerdict}
    (hd : decideRecovery host limits injected (calls m) = .ok d) (haction : d.action = .retry)
    (targetId : TargetId) :
    (observe host targetId (calls m).recorded (calls m).recorded.error
      none).classification.retryable = true := by
  obtain ⟨error, hf⟩ := h.fails m
  rw [decideRecovery_eq (h.own m) hf] at hd
  cases hd
  obtain ⟨hterminal, hretryable, -⟩ := decideAtOnce_retry haction
  have herror : (calls m).recorded.error = some error := by
    simp [DecideInput.recorded, hf, Except.toOption]
  rw [herror]
  exact (retryable_without_gate hterminal).trans hretryable

theorem KeepsFailing.retries (injected : ℕ → Option GeneratorCall) (hmax : 0 ≤ limits.maxTransientRetries)
    (n k : ℕ) (hretry : ∀ i < k, ∃ d,
      decideRecovery host limits (injected (n + i)) (calls (n + i)) = .ok d ∧ d.action = .retry) :
    (k : ℤ) ≤ limits.maxTransientRetries := by
  cases k with
  | zero => exact hmax
  | succ k =>
    obtain ⟨d, hd, haction⟩ := hretry k (Nat.lt_succ_self k)
    obtain ⟨error, hf⟩ := h.fails (n + k)
    rw [decideRecovery_eq (h.own _) hf] at hd
    cases hd
    obtain ⟨-, -, hstreak⟩ := decideAtOnce_retry haction
    -- the last k failures before this one were retried, and so count in the streak
    have hsplit : ((calls (n + k)).failing host error).prior =
        ((List.range n).map fun m => observe host (calls (n + k)).target.id (calls m).recorded
          (calls m).recorded.error none) ++
        (List.range k).map fun i => observe host (calls (n + k)).target.id (calls (n + i)).recorded
          (calls (n + i)).recorded.error none := by
      simp [DecideInput.failing, h.prior_eq, List.range_add]
    have hrun : k ≤ (((calls (n + k)).failing host error).prior.reverse.takeWhile fun o =>
        o.classification.retryable).length := by
      rw [hsplit, List.reverse_append, List.takeWhile_append_of_pos]
      · simp
      · intro o ho
        obtain ⟨i, hi, rfl⟩ := List.mem_map.mp (List.mem_reverse.mp ho)
        obtain ⟨d, hd, haction⟩ := hretry i ((List.mem_range.mp hi).trans (Nat.lt_succ_self k))
        exact h.retried hd haction _
    unfold Failing.streak at hstreak
    omega

end Run

/-- Under every configuration of the limits, whatever the failures and the proposals: the target is
blocked at its last allowed failed attempt at the latest, retries in a row are bounded, and a
failure that ends recovery blocks it at once. -/
theorem recovery_terminates (host : RecoveryHost) (sources : List (Option RecoveryLimitSource))
    (calls : ℕ → DecideInput) (injected : ℕ → Option GeneratorCall) (h : KeepsFailing calls) :
    let limits := resolveRecoveryLimits sources
    let decides (n : ℕ) (action : RecoveryAction) : Prop :=
      ∃ d, decideRecovery host limits (injected n) (calls n) = .ok d ∧ d.action = action
    (∃ n : ℕ, (n : ℤ) + 1 ≤ maxAttemptsFor limits ∧ decides n .block) ∧
      (∀ n k : ℕ, (∀ i < k, decides (n + i) .retry) → (k : ℤ) ≤ limits.maxTransientRetries) ∧
      ∀ n error, (calls n).failure = .ok error → EndsRecovery error (calls n).gate →
        decides n .block := by
  intro limits decides
  have hpos : 1 ≤ maxAttemptsFor limits := maxAttemptsFor_pos sources
  refine ⟨⟨(maxAttemptsFor limits - 1).toNat, ?_, ?_⟩, ?_, ?_⟩
  · omega
  · exact h.blocked _ (by omega)
  · exact h.retries injected (maxTransientRetries_nonneg sources)
  · exact fun n error hf hends => endsRecovery_blocks host limits _ (h.own n) hf hends

namespace RecoveryBounds

def plainHost : RecoveryHost where
  fold := fun s => toLowerCase s.toList
  localeCompare := compareStrings
  sha256 := String.ofList
  errorSignature := fun _ => "error"

def timestamp : Timestamp := ⟨0, epoch_valid⟩

def run : GoalRunLedger where
  runId := "run-1"
  graphId := "compiler--main"
  graphRevision := 1
  graphDigest := ""
  status := .running
  ledgerRevision := 1
  targets := ∅
  resource := ⟨0, 0, timestamp, timestamp⟩
  createdBy := "user:ada"
  createdAt := timestamp
  updatedAt := timestamp

def target : RecoveryTarget where
  id := "parser"
  dependsOn := []
  priority := 1
  executor := "implement"
  artifacts := []
  acceptance := ["it builds"]
  externalDependency := false
  requiresApproval := false
  title := "Parser"

def attempt (n : ℕ) : TargetAttempt where
  id := String.ofList (List.replicate n 'i')
  runId := "run-1"
  targetId := "parser"
  attempt := n + 1
  phase := .execute
  startedAt := timestamp

/-- A provider that drops the connection each time. -/
def dropped : GoalStudioFailure := ⟨.executionFailed, "read ECONNRESET", true, []⟩

def call (n : ℕ) : DecideInput where
  run := run
  target := target
  attempt := attempt n
  priorAttempts := (List.range n).map fun m =>
    { attempt m with outcome := some .failed, error := some dropped }
  gate := none
  error := some dropped

theorem call_keepsFailing : KeepsFailing call where
  target _ := rfl
  own _ := rfl
  fails _ := ⟨dropped, rfl⟩
  numbered _ _ h := Nat.succ_lt_succ h
  distinct m n h heq := by
    have hlength : (List.replicate m 'i').length = (List.replicate n 'i').length :=
      congrArg List.length (String.ofList_injective heq)
    simp only [List.length_replicate] at hlength
    omega
  prior _ := rfl

end RecoveryBounds

open RecoveryBounds in
theorem recovery_terminates_dropped :
    let decides (n : ℕ) (action : RecoveryAction) : Prop :=
      ∃ d, decideRecovery plainHost (resolveRecoveryLimits []) none (call n) = .ok d ∧
        d.action = action
    (∃ n : ℕ, (n : ℤ) + 1 ≤ 12 ∧ decides n .block) ∧
      (∀ n k : ℕ, (∀ i < k, decides (n + i) .retry) → (k : ℤ) ≤ 2) ∧
      ∀ n error, (call n).failure = .ok error → EndsRecovery error (call n).gate → decides n .block :=
  recovery_terminates plainHost [] call (fun _ => none) call_keepsFailing

end Wazir.Goals
