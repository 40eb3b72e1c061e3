import Wazir.Harness.DispatchBudget
import Wazir.Harness.SecondHarness

/-! What a dispatch keeps of its budget. The limits of an attempt are what is left, but no attempt is
held back where nothing is left, and a cost is rounded to six places, up as well as down. -/

namespace Wazir.Harness

open Wazir.Async

/-- The limit given to an attempt is positive and at most what the limit of the request leaves after
what was reported. -/
def GivenWithin (given limit : Option JsNumber) (reported : JsNumber) : Prop :=
  ∀ l, limit = some l → ∃ r, given = some r ∧ JsNumber.zero.le r = true ∧
    r.le (l.sub reported) = true ∧ r ≠ .zero

/-- What was reported before an attempt, with the resume context. -/
def DispatchRequest.reportedBy (request : DispatchRequest) (reports : List (ℕ × ReportedUsage)) :
    Spent :=
  reports.foldl (fun spent report => spent.charge report.1 report.2) request.initialSpent

/-- No fallback follows such a result. -/
def UnifiedExecutionResult.final (result : UnifiedExecutionResult) : Prop :=
  result.status = .completed ∨ result.status = .cancelled ∨ result.errorKind = some .policy ∨
    result.terminationReason = some .policyDenied

structure RespectsBudget (request : DispatchRequest) (s : BudgetState) : Prop where
  /-- Where `maxAttempts` is `NaN` there is no attempt. -/
  attempts : s.dispatch.attempt = 0 ∨
    (JsNumber.finite s.dispatch.attempt).le request.attempts = true
  once : s.tried.Nodup
  budgets : ∀ i given, s.handed[i]? = some given →
    GivenWithin given.maxTokens request.maxTokens (request.reportedBy (s.reports.take i)).tokens ∧
    GivenWithin given.maxToolCalls request.maxToolCalls
      (request.reportedBy (s.reports.take i)).toolCalls ∧
    GivenWithin given.maxCostUSD request.maxCostUSD (request.reportedBy (s.reports.take i)).costUSD
  fallbacks : ∀ start ∈ s.dispatch.starts.tail, ∃ result, start.previous = some result ∧
    ¬ result.final

/-- The amounts leave something of each limit, and the cost that is left is not rounded up. -/
def Affordable (request : DispatchRequest) (spent : Spent) : Prop :=
  (∀ l, request.maxTokens = some l → JsNumber.zero.lt (l.sub spent.tokens) = true) ∧
  (∀ l, request.maxToolCalls = some l → JsNumber.zero.lt (l.sub spent.toolCalls) = true) ∧
  ∀ l, request.maxCostUSD = some l → JsNumber.zero.lt (l.sub spent.costUSD).toFixed6 = true ∧
    (l.sub spent.costUSD).toFixed6.le (l.sub spent.costUSD) = true

/-- The request leaves something to spend after its resume context, and a finite `maxAttempts` above
one is a whole number. -/
structure Spendable (request : DispatchRequest) : Prop where
  whole : ∀ q, request.maxAttempts = some (.finite q) → 1 < q → q.den = 1
  affordable : Affordable request request.initialSpent

/-- What is reported with a result that the loop falls back on leaves something of each budget. -/
def LeavesBudget (request : DispatchRequest) (s : BudgetState) : BudgetEvent → Prop
  | .returned result usage policy => request.canFallback policy result = true →
      Affordable request (s.spent.charge result.toolCalls.length usage)
  | _ => True

/-! The loop. -/

def BudgetEvent.moves : BudgetEvent → Bool
  | .others _ => false
  | _ => true

def DispatchEvent.returns : DispatchEvent → Bool
  | .returned _ _ => true
  | _ => false

/-- The event is one of the loop's own. -/
def DispatchEvent.moves : DispatchEvent → Bool
  | .others _ => false
  | _ => true

namespace DispatchState

variable {request : UnifiedExecutionRequest} {s d : DispatchState} {e : DispatchEvent}

def running (s : DispatchState) : ℕ :=
  match s.phase with
  | .executing _ => 1
  | _ => 0

/-- How many steps are left at most before the next attempt starts or the loop ends. -/
def rank (s : DispatchState) : ℕ :=
  match s.phase with
  | .resolving => 5
  | .lookingUp _ => 4
  | .creating _ => 3
  | .flushing _ => 2
  | .executing _ => 2
  | .resolvingNext => 1
  | .verifying => 0

/-- The loop is about to fall back, and the last result lets it. -/
def FallsBack (s : DispatchState) : Prop :=
  s.phase = .resolvingNext → ∃ result, s.lastResult = some result ∧
    isFallbackTriggerResult result = true

/-- What one event does to the attempts. -/
inductive Moved (request : UnifiedExecutionRequest) (s : DispatchState) :
    DispatchEvent → DispatchState → Prop
  | waited {e : DispatchEvent} {d : DispatchState} (hstarts : d.starts = s.starts)
      (hattempt : d.attempt = s.attempt) (hrunning : d.running = s.running)
      (hbeginning : d.beginning = true → s.beginning = true) (hfalls : s.FallsBack → d.FallsBack)
      (hnext : d.phase = .resolvingNext → s.phase = .resolvingNext) (hevent : e.returns = false)
      (hrank : d.rank + (if e.moves then 1 else 0) ≤ s.rank) : Moved request s e d
  | started {e : DispatchEvent} {d : DispatchState} (harnessId : String) (engine : Engine)
      (hstarts : d.starts = s.starts ++ [⟨harnessId, engine, s.lastResult⟩])
      (hattempt : d.attempt = s.attempt + 1) (hrunning : s.running = 0) (hrunning' : d.running = 1)
      (hbeginning : d.beginning = false) (hfalls : d.FallsBack) (hnext : d.phase ≠ .resolvingNext)
      (hfrom : s.beginning = true ∨ s.phase = .resolvingNext ∧ e = .resolved harnessId)
      (hloops : s.loops request = true) (hevent : e.returns = false) (hrank : d.rank = 2)
      (hrank' : 0 < s.rank) : Moved request s e d
  | settled {d : DispatchState} (result : UnifiedExecutionResult)
      (policy : Option RoutingPolicyConfig) (hstarts : d.starts = s.starts)
      (hattempt : d.attempt = s.attempt) (hrunning : s.running = 1) (hrunning' : d.running = 0)
      (hbeginning : d.beginning = false) (hfalls : d.FallsBack)
      (hnext : d.phase = .resolvingNext → request.canFallback policy result = true)
      (hrank : d.rank < s.rank) : Moved request s (.returned result policy) d

theorem settle_moved (harnessId : String) (result : UnifiedExecutionResult)
    (policy : Option RoutingPolicyConfig) (hphase : s.phase = .executing harnessId) :
    Moved request s (.returned result policy) (s.settle request harnessId result policy) := by
  have hrunning : s.running = 1 := by rw [running, hphase]
  have hrank : s.rank = 2 := by rw [rank, hphase]
  unfold settle
  dsimp only
  by_cases hfallback : request.canFallback policy
      { result with harnessId := harnessId, verified := false } = true
  · rw [if_pos hfallback]
    generalize hasUnconfirmedMutatingSideEffects s.engine request.executionId _ = blocked
    cases blocked with
    | some reason =>
      exact .settled _ _ rfl rfl hrunning rfl rfl nofun nofun (by rw [hrank]; exact Nat.zero_lt_two)
    | none =>
      refine .settled _ _ rfl rfl hrunning rfl rfl (fun _ => ⟨_, rfl, ?_⟩) (fun _ => hfallback)
        (by rw [hrank]; exact Nat.one_lt_two)
      simp only [UnifiedExecutionRequest.canFallback, Bool.and_eq_true] at hfallback
      exact hfallback.1.1.1
  · rw [if_neg hfallback]
    exact .settled _ _ rfl rfl hrunning rfl rfl nofun nofun (by rw [hrank]; exact Nat.zero_lt_two)

/-- The head of the loop, with nothing running. -/
theorem enter_moved {harnessId : String} (hrunning : s.running = 0) (hrank : 0 < s.rank)
    (hmoves : e.moves = true) (hevent : e.returns = false)
    (hfrom : s.beginning = true ∨ s.phase = .resolvingNext ∧ e = .resolved harnessId) :
    Moved request s e (s.enter request harnessId) := by
  unfold enter
  split_ifs with hloops
  · exact .started harnessId s.engine rfl rfl hrunning rfl rfl (by rintro ⟨⟩) (by rintro ⟨⟩) hfrom
      hloops hevent rfl hrank
  · refine .waited rfl rfl hrunning.symm (by rintro ⟨⟩) (by rintro _ ⟨⟩) (by rintro ⟨⟩) hevent ?_
    rw [if_pos hmoves]
    exact hrank

/-- The id of the record plays no part. -/
theorem Moved.of_named {id : String} (h : Moved request { s with engineExecutionId := id } e d) :
    Moved request s e d := by
  cases h with
  | waited hstarts hattempt hrunning hbeginning hfalls hnext hevent hrank =>
    exact .waited hstarts hattempt hrunning hbeginning hfalls hnext hevent hrank
  | started harnessId engine hstarts hattempt hrunning hrunning' hbeginning hfalls hnext hfrom hloops
      hevent hrank hrank' =>
    exact .started harnessId engine hstarts hattempt hrunning hrunning' hbeginning hfalls hnext hfrom
      hloops hevent hrank hrank'
  | settled result policy hstarts hattempt hrunning hrunning' hbeginning hfalls hnext hrank =>
    exact .settled result policy hstarts hattempt hrunning hrunning' hbeginning hfalls hnext hrank

theorem step_moved (h : s.step request e = some d) : Moved request s e d := by
  cases e with
  | others engine =>
    have heq : { s with engine := engine } = d := Option.some.inj h
    subst heq
    exact .waited rfl rfl rfl (fun hb => hb) (fun hf => hf) (fun hp => hp) rfl le_rfl
  | resolved harnessId =>
    unfold step at h
    dsimp only at h
    split at h
    · next hphase =>
      obtain rfl := Option.some.inj h
      exact .waited rfl rfl (by simp [running, hphase]) (fun _ => by simp [beginning, hphase])
        (by rintro _ ⟨⟩) (by rintro ⟨⟩) rfl (by simp [rank, hphase, DispatchEvent.moves])
    · next hphase =>
      obtain rfl := Option.some.inj h
      exact enter_moved (by simp [running, hphase]) (by simp [rank, hphase]) rfl rfl
        (.inr ⟨hphase, rfl⟩)
    · cases h
  | lookedUp =>
    unfold step at h
    dsimp only at h
    split at h
    · next harnessId hphase =>
      have hbeginning : s.beginning = true := by simp [beginning, hphase]
      split at h
      · obtain rfl := Option.some.inj h
        have hentered : Moved request { s with engineExecutionId := request.executionId } .lookedUp
            ({ s with engineExecutionId := request.executionId }.enter request harnessId) :=
          enter_moved (by simp [running, hphase]) (by simp [rank, hphase]) rfl rfl (.inl hbeginning)
        exact hentered.of_named
      · obtain rfl := Option.some.inj h
        exact .waited rfl rfl (by simp [running, hphase]) (fun _ => hbeginning) (by rintro _ ⟨⟩)
          (by rintro ⟨⟩) rfl (by simp [rank, hphase, DispatchEvent.moves])
    · cases h
  | created executionId record =>
    unfold step at h
    dsimp only at h
    split at h
    · next harnessId hphase =>
      split_ifs at h
      obtain rfl := Option.some.inj h
      exact .waited rfl rfl (by simp [running, hphase]) (fun _ => by simp [beginning, hphase])
        (by rintro _ ⟨⟩) (by rintro ⟨⟩) rfl (by simp [rank, hphase, DispatchEvent.moves])
    · cases h
  | flushed =>
    unfold step at h
    dsimp only at h
    split at h
    · next harnessId hphase =>
      obtain rfl := Option.some.inj h
      exact enter_moved (by simp [running, hphase]) (by simp [rank, hphase]) rfl rfl
        (.inl (by simp [beginning, hphase]))
    · cases h
  | returned result policy =>
    unfold step at h
    dsimp only at h
    split at h
    · next harnessId hphase =>
      obtain rfl := Option.some.inj h
      exact settle_moved harnessId result policy hphase
    · cases h
  | noCandidate =>
    unfold step at h
    dsimp only at h
    split at h
    · next hphase =>
      obtain rfl := Option.some.inj h
      exact .waited rfl rfl (by simp [running, hphase]) (by rintro ⟨⟩) (by rintro _ ⟨⟩)
        (by rintro ⟨⟩) rfl (by simp [rank, hphase, DispatchEvent.moves])
    · cases h

end DispatchState

/-! The amounts. -/

variable {request : DispatchRequest} {s s' : BudgetState}

theorem reportedBy_concat (reports : List (ℕ × ReportedUsage)) (report : ℕ × ReportedUsage) :
    request.reportedBy (reports ++ [report]) =
      (request.reportedBy reports).charge report.1 report.2 := by
  rw [DispatchRequest.reportedBy, List.foldl_append]
  rfl

/-- How the lists of a dispatch belong together. -/
structure Tracked (request : DispatchRequest) (s : BudgetState) : Prop where
  handed : s.handed.length = s.dispatch.attempt
  starts : s.dispatch.starts.length = s.dispatch.attempt
  reports : s.reports.length + s.dispatch.running = s.dispatch.attempt
  spent : s.spent = request.reportedBy s.reports
  given : ∀ i given, s.handed[i]? = some given →
    given = request.attemptConstraints (request.reportedBy (s.reports.take i))
  beginning : s.dispatch.beginning = true → s.dispatch.attempt = 0
  attempts : ∀ i < s.dispatch.attempt, (JsNumber.finite i).lt request.attempts = true
  once : s.tried.Nodup
  falls : s.dispatch.FallsBack
  fallbacks : ∀ start ∈ s.dispatch.starts.tail, ∃ result, start.previous = some result ∧
    isFallbackTriggerResult result = true

variable {e : DispatchEvent}

theorem move_cases (h : s.move request e = some s') :
    ∃ d, DispatchState.Moved request.toUnifiedExecutionRequest s.dispatch e d ∧
      s' = { s with
        dispatch := d
        handed := if s.dispatch.starts.length < d.starts.length then
          s.handed ++ [request.attemptConstraints s.spent] else s.handed } := by
  obtain ⟨d, hd, rfl⟩ := Option.map_eq_some_iff.mp h
  exact ⟨d, DispatchState.step_moved hd, rfl⟩

/-- What an event does: the loop moves by an event of its own, to no harness that was tried; or a result
comes in and is charged. -/
theorem step_cases {e : BudgetEvent} (htaken : s.step request e = some s') :
    (∃ d : DispatchEvent, d.returns = false ∧ d.moves = e.moves ∧
      (∀ id, d = .resolved id → id ∉ s.tried) ∧ s.move request d = some s') ∨
    ∃ result usage policy s'', e = .returned result usage policy ∧
      s.move request (.returned result policy) = some s'' ∧
      s' = { s'' with
        spent := s.spent.charge result.toolCalls.length usage
        reports := s.reports ++ [(result.toolCalls.length, usage)] } := by
  cases e with
  | others engine => exact .inl ⟨_, rfl, rfl, by rintro _ ⟨⟩, htaken⟩
  | resolve w =>
    unfold BudgetState.step at htaken
    dsimp only at htaken
    split at htaken
    · next id hid =>
      refine .inl ⟨_, rfl, rfl, fun id' heq => ?_, htaken⟩
      obtain rfl := DispatchEvent.resolved.inj heq
      exact w.resolveHarness_fresh hid
    · exact .inl ⟨_, rfl, rfl, by rintro _ ⟨⟩, htaken⟩
  | lookedUp => exact .inl ⟨_, rfl, rfl, by rintro _ ⟨⟩, htaken⟩
  | created executionId record => exact .inl ⟨_, rfl, rfl, by rintro _ ⟨⟩, htaken⟩
  | flushed => exact .inl ⟨_, rfl, rfl, by rintro _ ⟨⟩, htaken⟩
  | returned result usage policy =>
    obtain ⟨s'', hmove, rfl⟩ := Option.map_eq_some_iff.mp htaken
    exact .inr ⟨result, usage, policy, s'', rfl, hmove, rfl⟩

/-- An entry of a list with one more at its end. -/
theorem getElem?_concat_cases {α : Type} {l : List α} {a b : α} {i : ℕ} (h : (l ++ [a])[i]? = some b) :
    l[i]? = some b ∨ i = l.length ∧ b = a := by
  rcases Nat.lt_or_ge i l.length with hlt | hge
  · rw [List.getElem?_append_left hlt] at h
    exact .inl h
  · rw [List.getElem?_append_right hge] at h
    obtain ⟨hzero, rfl⟩ := List.getElem?_eq_some_iff.mp h
    rw [List.length_singleton, Nat.lt_one_iff] at hzero
    exact .inr ⟨by omega, List.getElem_singleton _⟩

theorem mem_tail_concat {α : Type} {l : List α} {a b : α} (h : b ∈ (l ++ [a]).tail) :
    l ≠ [] ∧ (b ∈ l.tail ∨ b = a) := by
  cases l with
  | nil => cases h
  | cons first rest => exact ⟨List.cons_ne_nil first rest, by simpa using h⟩

theorem nil_of_beginning (h : Tracked request s) (hb : s.dispatch.beginning = true) :
    s.dispatch.starts = [] :=
  List.eq_nil_of_length_eq_zero (h.starts.trans (h.beginning hb))

/-- The loop moves by an event of its own; a harness it falls back to was not tried. -/
theorem Tracked.move (h : Tracked request s) (hreturns : e.returns = false)
    (hfresh : ∀ id, e = .resolved id → id ∉ s.tried) (hmove : s.move request e = some s') :
    Tracked request s' := by
  obtain ⟨d, hmoved, rfl⟩ := move_cases hmove
  cases hmoved with
  | waited hstarts hattempt hrunning hbeginning hfalls _ _ _ =>
    rw [hstarts, if_neg (lt_irrefl _)]
    refine ⟨h.handed.trans hattempt.symm, ?_, ?_, h.spent, h.given, fun hb => ?_, ?_, ?_,
      hfalls h.falls, ?_⟩
    · rw [hstarts, hattempt, h.starts]
    · rw [hrunning, hattempt, h.reports]
    · exact hattempt.trans (h.beginning (hbeginning hb))
    · rw [hattempt]
      exact h.attempts
    · rw [BudgetState.tried, hstarts]
      exact h.once
    · rw [hstarts]
      exact h.fallbacks
  | started harnessId engine hstarts hattempt hrunning hrunning' hbeginning hfalls _ hfrom hloops _ _ _ =>
    have hlonger : s.dispatch.starts.length < d.starts.length := by
      rw [hstarts, List.length_append, List.length_singleton]
      exact Nat.lt_succ_self _
    have hreports : s.reports.length = s.dispatch.attempt := by
      have := h.reports
      omega
    rw [if_pos hlonger]
    refine ⟨?_, ?_, ?_, h.spent, ?_, fun hb => absurd (hbeginning.symm.trans hb) Bool.false_ne_true,
      ?_, ?_, hfalls, ?_⟩
    · rw [hattempt, List.length_append, h.handed, List.length_singleton]
    · rw [hstarts, hattempt, List.length_append, h.starts, List.length_singleton]
    · rw [hrunning', hattempt, hreports]
    · intro i given hi
      rcases getElem?_concat_cases hi with hold | ⟨rfl, rfl⟩
      · exact h.given i given hold
      · rw [h.handed, ← hreports, List.take_length, h.spent]
    · intro i hi
      rw [hattempt] at hi
      rcases Nat.lt_succ_iff_lt_or_eq.mp hi with hlt | rfl
      · exact h.attempts i hlt
      · exact hloops
    · rw [BudgetState.tried, hstarts, List.map_append, List.map_singleton]
      refine List.nodup_append.mpr ⟨h.once, List.nodup_singleton _, ?_⟩
      intro id hid id' hid' heq
      obtain rfl := List.mem_singleton.mp hid'
      rcases hfrom with hb | ⟨-, rfl⟩
      · rw [nil_of_beginning h hb] at hid
        cases hid
      · exact hfresh _ rfl (heq ▸ hid)
    · intro start hstart
      rw [hstarts] at hstart
      obtain ⟨hsome, hold | rfl⟩ := mem_tail_concat hstart
      · exact h.fallbacks start hold
      · rcases hfrom with hb | ⟨hphase, -⟩
        · exact absurd (nil_of_beginning h hb) hsome
        · exact h.falls hphase
  | settled result policy hstarts hattempt hrunning hrunning' hbeginning hfalls _ _ => cases hreturns

/-- A result comes in. -/
theorem Tracked.returned (h : Tracked request s) {result : UnifiedExecutionResult}
    {usage : ReportedUsage} {policy : Option RoutingPolicyConfig}
    (hmove : s.move request (.returned result policy) = some s') :
    Tracked request { s' with
      spent := s.spent.charge result.toolCalls.length usage
      reports := s.reports ++ [(result.toolCalls.length, usage)] } := by
  obtain ⟨d, hmoved, rfl⟩ := move_cases hmove
  cases hmoved with
  | waited _ _ _ _ _ _ hevent _ => cases hevent
  | started _ _ _ _ _ _ _ _ _ _ _ hevent _ _ => cases hevent
  | settled _ _ hstarts hattempt hrunning hrunning' hbeginning hfalls _ _ =>
    have hreports := h.reports
    rw [hstarts, if_neg (lt_irrefl _)]
    refine ⟨h.handed.trans hattempt.symm, ?_, ?_, ?_, ?_,
      fun hb => absurd (hbeginning.symm.trans hb) Bool.false_ne_true, ?_, ?_, hfalls, ?_⟩
    · rw [hstarts, hattempt, h.starts]
    · rw [List.length_append, List.length_singleton, hrunning', hattempt]
      omega
    · rw [reportedBy_concat, h.spent]
    · intro i given hi
      have hlt := (List.getElem?_eq_some_iff.mp hi).1
      rw [List.take_append_of_le_length (by rw [h.handed] at hlt; omega)]
      exact h.given i given hi
    · rw [hattempt]
      exact h.attempts
    · rw [BudgetState.tried, hstarts]
      exact h.once
    · rw [hstarts]
      exact h.fallbacks

theorem Tracked.step (h : Tracked request s) {e : BudgetEvent}
    (htaken : s.step request e = some s') : Tracked request s' := by
  rcases step_cases htaken with ⟨d, hreturns, -, hfresh, hmove⟩ | ⟨_, _, _, s'', -, hmove, rfl⟩
  · exact h.move hreturns hfresh hmove
  · exact h.returned hmove

theorem tracked_called (engine : Engine) : Tracked request (.called request engine) where
  handed := rfl
  starts := rfl
  reports := rfl
  spent := rfl
  given i given h := by simp [BudgetState.called] at h
  beginning _ := rfl
  attempts i hi := absurd hi (Nat.not_lt_zero i)
  once := List.nodup_nil
  falls h := by cases h
  fallbacks start h := absurd h List.not_mem_nil

theorem Tracked.run (h : Tracked request s) {events : List BudgetEvent}
    (hrun : Reached.run (BudgetState.step request) s events = some s') : Tracked request s' := by
  induction events generalizing s with
  | nil =>
    obtain rfl := Option.some.inj hrun
    exact h
  | cons e rest ih =>
    obtain ⟨next, htaken, hrest⟩ := Option.bind_eq_some_iff.mp hrun
    exact ih (h.step htaken) hrest

/-! The end of the loop. -/

/-- Each step of the loop's own brings the next attempt or the end nearer. -/
theorem move_left (hmove : s.move request e = some s') :
    s'.dispatch.rank + 2 * s.dispatch.attempt + (if e.moves then 1 else 0) ≤
      s.dispatch.rank + 2 * s'.dispatch.attempt := by
  obtain ⟨d, hmoved, rfl⟩ := move_cases hmove
  cases hmoved with
  | waited _ hattempt _ _ _ _ _ hrank =>
    dsimp only
    rw [hattempt]
    omega
  | started _ _ _ hattempt _ _ _ _ _ _ _ _ hrank hrank' =>
    dsimp only
    rw [hattempt, hrank]
    split_ifs <;> omega
  | settled _ _ _ hattempt _ _ _ _ _ hrank =>
    dsimp only
    rw [hattempt]
    split_ifs <;> omega

theorem step_left {e : BudgetEvent} (htaken : s.step request e = some s') :
    s'.dispatch.rank + 2 * s.dispatch.attempt + (if e.moves then 1 else 0) ≤
      s.dispatch.rank + 2 * s'.dispatch.attempt := by
  rcases step_cases htaken with ⟨d, -, hmoves, -, hmove⟩ | ⟨_, _, _, s'', rfl, hmove, rfl⟩
  · rw [← hmoves]
    exact move_left hmove
  · exact move_left hmove

theorem run_left {events : List BudgetEvent}
    (hrun : Reached.run (BudgetState.step request) s events = some s') :
    s'.dispatch.rank + 2 * s.dispatch.attempt + events.countP (·.moves) ≤
      s.dispatch.rank + 2 * s'.dispatch.attempt := by
  induction events generalizing s with
  | nil =>
    obtain rfl := Option.some.inj hrun
    exact le_rfl
  | cons e rest ih =>
    obtain ⟨next, htaken, hrest⟩ := Option.bind_eq_some_iff.mp hrun
    have hfirst := step_left htaken
    have hlater := ih hrest
    rw [List.countP_cons]
    omega

/-! One amount. -/

theorem givenWithin_iff {limit : Option JsNumber} {reported : JsNumber}
    (left : JsNumber → JsNumber) :
    GivenWithin (limit.map fun l => JsNumber.zero.max (left l)) limit reported ↔
      ∀ l, limit = some l →
        JsNumber.zero.lt (left l) = true ∧ (left l).le (l.sub reported) = true := by
  refine forall₂_congr fun l hl => ?_
  rw [← JsNumber.clamped_iff, hl, Option.map_some]
  constructor
  · rintro ⟨r, hr, hwithin⟩
    obtain rfl := Option.some.inj hr
    exact hwithin
  · intro hwithin
    exact ⟨_, rfl, hwithin⟩

theorem positive_le {a : JsNumber} (h : JsNumber.zero.lt a = true) : a.le a = true := by
  apply JsNumber.le_self
  rintro rfl
  cases h

/-- What can be afforded is given. -/
theorem given_of_affordable {spent : Spent} (h : Affordable request spent) :
    GivenWithin (request.attemptConstraints spent).maxTokens request.maxTokens spent.tokens ∧
      GivenWithin (request.attemptConstraints spent).maxToolCalls request.maxToolCalls
        spent.toolCalls ∧
      GivenWithin (request.attemptConstraints spent).maxCostUSD request.maxCostUSD spent.costUSD := by
  obtain ⟨htokens, hcalls, hcost⟩ := h
  refine ⟨?_, ?_, ?_⟩
  · exact (givenWithin_iff fun l => l.sub spent.tokens).mpr fun l hl =>
      ⟨htokens l hl, positive_le (htokens l hl)⟩
  · exact (givenWithin_iff fun l => l.sub spent.toolCalls).mpr fun l hl =>
      ⟨hcalls l hl, positive_le (hcalls l hl)⟩
  · exact (givenWithin_iff fun l => (l.sub spent.costUSD).toFixed6).mpr hcost

theorem not_final {result : UnifiedExecutionResult} (h : isFallbackTriggerResult result = true) :
    ¬ result.final := by
  unfold isFallbackTriggerResult at h
  split_ifs at h with hended hpolicy
  rw [not_or] at hended hpolicy
  rintro (hstatus | hstatus | hkind | hreason)
  · exact hended.1 hstatus
  · exact hended.2 hstatus
  · exact hpolicy.1 hkind
  · exact hpolicy.2 hreason

/-! What the attempts can afford. -/

/-- Each attempt was started with something left to spend, and the next one will be. -/
structure Funded (request : DispatchRequest) (s : BudgetState) : Prop where
  given : ∀ i < s.dispatch.attempt, Affordable request (request.reportedBy (s.reports.take i))
  next : s.dispatch.phase = .resolvingNext → Affordable request s.spent

theorem Funded.move (h : Funded request s) (ht : Tracked request s) (hspend : Spendable request)
    (hreturns : e.returns = false) (hmove : s.move request e = some s') : Funded request s' := by
  obtain ⟨d, hmoved, rfl⟩ := move_cases hmove
  cases hmoved with
  | waited _ hattempt _ _ _ hnext _ _ =>
    refine ⟨fun i hi => h.given i ?_, fun hphase => h.next (hnext hphase)⟩
    rwa [hattempt] at hi
  | started _ _ _ hattempt hrunning _ _ _ hnext hfrom _ _ _ _ =>
    have hreports : s.reports.length = s.dispatch.attempt := by
      have := ht.reports
      omega
    refine ⟨fun i hi => ?_, fun hphase => absurd hphase hnext⟩
    rw [hattempt] at hi
    rcases Nat.lt_succ_iff_lt_or_eq.mp hi with hlt | rfl
    · exact h.given i hlt
    · rw [← hreports, List.take_length, ← ht.spent]
      rcases hfrom with hb | ⟨hphase, -⟩
      · have hnone : s.reports = [] := List.eq_nil_of_length_eq_zero (hreports.trans (ht.beginning hb))
        rw [ht.spent, hnone]
        exact hspend.affordable
      · exact h.next hphase
  | settled => cases hreturns

theorem Funded.returned (h : Funded request s) (ht : Tracked request s)
    {result : UnifiedExecutionResult} {usage : ReportedUsage} {policy : Option RoutingPolicyConfig}
    (hleaves : LeavesBudget request s (.returned result usage policy))
    (hmove : s.move request (.returned result policy) = some s') :
    Funded request { s' with
      spent := s.spent.charge result.toolCalls.length usage
      reports := s.reports ++ [(result.toolCalls.length, usage)] } := by
  obtain ⟨d, hmoved, rfl⟩ := move_cases hmove
  cases hmoved with
  | waited _ _ _ _ _ _ hevent _ => cases hevent
  | started _ _ _ _ _ _ _ _ _ _ _ hevent _ _ => cases hevent
  | settled _ _ _ hattempt hrunning _ _ _ hnext _ =>
    have hreports := ht.reports
    refine ⟨fun i hi => ?_, fun hphase => hleaves (hnext hphase)⟩
    rw [hattempt] at hi
    rw [List.take_append_of_le_length (by omega)]
    exact h.given i hi

theorem Funded.step (h : Funded request s) (ht : Tracked request s) (hspend : Spendable request)
    {e : BudgetEvent} (hleaves : LeavesBudget request s e) (htaken : s.step request e = some s') :
    Funded request s' := by
  rcases step_cases htaken with ⟨d, hreturns, -, -, hmove⟩ | ⟨_, _, _, s'', rfl, hmove, rfl⟩
  · exact h.move ht hspend hreturns hmove
  · exact h.returned ht hleaves hmove

theorem finite_lt {p q : ℚ} : (JsNumber.finite p).lt (.finite q) = true ↔ p < q := by
  simp only [JsNumber.lt, JsNumber.le, Bool.and_eq_true, Bool.not_eq_true', decide_eq_true_eq,
    decide_eq_false_iff_not, not_le]
  exact and_iff_right_of_imp le_of_lt

/-- Below a whole number of attempts there is room for one more. -/
theorem next_le {n : ℕ} {m : JsNumber} (hwhole : ∀ q, m = .finite q → 1 < q → q.den = 1)
    (h : (JsNumber.finite n).lt ((JsNumber.finite 1).max m) = true) :
    (JsNumber.finite (n + 1 : ℕ)).le ((JsNumber.finite 1).max m) = true := by
  have hone (hlt : (JsNumber.finite n).lt (.finite 1) = true) :
      (JsNumber.finite (n + 1 : ℕ)).le (.finite 1) = true := by
    have hzero : n < 1 := by exact_mod_cast finite_lt.mp hlt
    obtain rfl : n = 0 := by omega
    rfl
  cases m with
  | nan => cases h
  | infinite negative =>
    cases negative with
    | false => rfl
    | true => exact hone h
  | finite q =>
    by_cases hq : 1 < q
    · have hmax : (JsNumber.finite 1).max (.finite q) = .finite q := by
        simp [JsNumber.max, JsNumber.le, hq.le]
      rw [hmax] at h ⊢
      have hlt : (n : ℚ) < q := finite_lt.mp h
      rw [← Rat.coe_int_num_of_den_eq_one (hwhole q rfl hq)] at hlt ⊢
      have hint : (n : ℤ) < q.num := by exact_mod_cast hlt
      have hle : ((n + 1 : ℕ) : ℤ) ≤ q.num := by push_cast; omega
      simp only [JsNumber.le, decide_eq_true_eq]
      exact_mod_cast hle
    · have hmax : (JsNumber.finite 1).max (.finite q) = .finite 1 := by
        have hle : q ≤ 1 := not_lt.mp hq
        by_cases heq : q = 1
        · simp [JsNumber.max, JsNumber.le, heq]
        · simp [JsNumber.max, JsNumber.le, lt_of_le_of_ne hle heq]
      rw [hmax] at h ⊢
      exact hone h

theorem attempts_le (ht : Tracked request s) (hspend : Spendable request) :
    s.dispatch.attempt = 0 ∨ (JsNumber.finite s.dispatch.attempt).le request.attempts = true := by
  cases hattempt : s.dispatch.attempt with
  | zero => exact .inl rfl
  | succ n =>
    right
    refine next_le (fun q hq hlt => ?_) (ht.attempts n (by omega))
    cases hmax : request.maxAttempts with
    | some m =>
      rw [hmax] at hq
      exact hspend.whole q (by rw [hmax]; exact congrArg some hq) hlt
    | none =>
      rw [hmax, Option.getD_none] at hq
      split_ifs at hq <;> obtain rfl := JsNumber.finite.inj hq
      · rfl
      · exact absurd hlt (lt_irrefl _)

theorem Funded.respects (h : Funded request s) (ht : Tracked request s) (hspend : Spendable request) :
    RespectsBudget request s := by
  refine ⟨attempts_le ht hspend, ht.once, fun i given hi => ?_, fun start hstart => ?_⟩
  · have hlt := (List.getElem?_eq_some_iff.mp hi).1
    rw [ht.handed] at hlt
    rw [ht.given i given hi]
    exact given_of_affordable (h.given i hlt)
  · obtain ⟨result, hprevious, htrigger⟩ := ht.fallbacks start hstart
    exact ⟨result, hprevious, not_final htrigger⟩

/-- In every run the loop makes at most two steps of its own for each harness that it tries, once each,
and five more; and it respects its budget if the request leaves something to spend and so does what is
reported with each result that it falls back on. -/
theorem dispatch_budget (request : DispatchRequest) (engine : Engine) :
    (∀ events s, Reached.run (BudgetState.step request) (.called request engine) events = some s →
      events.countP (·.moves) ≤ 2 * s.tried.length + 5 ∧ s.tried.Nodup) ∧
    (Spendable request → ∀ s, Reached (BudgetState.step request) (LeavesBudget request)
      (.called request engine) s → RespectsBudget request s) := by
  constructor
  · intro events s hrun
    have ht := (tracked_called engine).run hrun
    have hlength : s.tried.length = s.dispatch.attempt := by
      rw [BudgetState.tried, List.length_map, ht.starts]
    have hleft := run_left hrun
    have hstart : (BudgetState.called request engine).dispatch.rank = 5 := rfl
    have hnone : (BudgetState.called request engine).dispatch.attempt = 0 := rfl
    exact ⟨by omega, ht.once⟩
  · intro hspend s h
    have hinit : Tracked request (.called request engine) ∧ Funded request (.called request engine) :=
      ⟨tracked_called engine, ⟨fun i hi => absurd hi (Nat.not_lt_zero i), by rintro ⟨⟩⟩⟩
    obtain ⟨ht, hf⟩ := h.invariant (P := fun s => Tracked request s ∧ Funded request s) hinit
      fun _ _ _ hs hleaves htaken => ⟨hs.1.step htaken, hs.2.step hs.1 hspend hleaves htaken⟩
    exact hf.respects ht hspend

/-! A dispatch that has spent its tokens. -/

def tokenRequest : DispatchRequest where
  toUnifiedExecutionRequest := fallbackRequest
  harnessPreference := none
  modelPreference := none
  maxTokens := some (.finite 1000)
  maxToolCalls := none
  maxCostUSD := none
  maxDurationMs := none
  resumeContext := none

def twoHarnesses : ResolutionWorld where
  taskDenied := false
  harnesses := [⟨"first", true⟩, ⟨"second", false⟩]
  localeCompare := compareStrings
  eligibility _ := .eligible
  policy := none
  plan _ := .noScheduler

def budgetRequest : DispatchRequest where
  toUnifiedExecutionRequest := { fallbackRequest with maxAttempts := some (.finite 2) }
  harnessPreference := none
  modelPreference := none
  maxTokens := some (.finite 1000)
  maxToolCalls := some (.finite 20)
  maxCostUSD := some (.finite (1 / 2))
  maxDurationMs := none
  resumeContext := some ⟨.finite 100, .finite 2⟩

/-- The first harness breaks off before its limits. -/
def affordedRun : List BudgetEvent :=
  [.resolve twoHarnesses, .lookedUp,
    .returned brokenOffAfterWrite
      { totalTokens := some (.finite 400), costUSD := some (.finite (1 / 8)) } none,
    .resolve twoHarnesses]

instance decidableAffordable (request : DispatchRequest) (spent : Spent) :
    Decidable (Affordable request spent) :=
  inferInstanceAs (Decidable ((∀ l ∈ request.maxTokens, _) ∧ (∀ l ∈ request.maxToolCalls, _) ∧
    ∀ l ∈ request.maxCostUSD, _ ∧ _))

instance decidableLeavesBudget (request : DispatchRequest) (s : BudgetState) :
    (e : BudgetEvent) → Decidable (LeavesBudget request s e)
  | .returned _ _ _ => inferInstanceAs (Decidable (_ → _))
  | .others _ | .resolve _ | .lookedUp | .created _ _ | .flushed => inferInstanceAs (Decidable True)

theorem budgetRequest_spendable : Spendable budgetRequest where
  whole q hq _ := by
    obtain rfl := JsNumber.finite.inj (Option.some.inj hq)
    rfl
  affordable := by decide +kernel

/-- The second harness is given what the first one and the resume context left. -/
theorem dispatch_budget_afforded : ∃ s, RespectsBudget budgetRequest s ∧
    s.tried = ["first", "second"] ∧
    s.handed.map (fun given => (given.maxTokens, given.maxToolCalls)) =
      [(some (.finite 900), some (.finite 18)), (some (.finite 500), some (.finite 17))] := by
  have hrun : (Reached.run (BudgetState.step budgetRequest)
      (.called budgetRequest (.holding "exec-request" createdExecution.record)) affordedRun).any
        (fun s => s.tried = ["first", "second"] ∧
          s.handed.map (fun given => (given.maxTokens, given.maxToolCalls)) =
            [(some (.finite 900), some (.finite 18)), (some (.finite 500), some (.finite 17))]) =
      true := by
    decide +kernel
  obtain ⟨s, hs, hfound⟩ := (Option.any_eq_true _ _).mp hrun
  have hreached : Reached (BudgetState.step budgetRequest) (LeavesBudget budgetRequest)
      (.called budgetRequest (.holding "exec-request" createdExecution.record)) s :=
    Reached.of_run (fun s e => decide (LeavesBudget budgetRequest s e))
      (fun _ _ => of_decide_eq_true) affordedRun (by decide +kernel) hs .init
  exact ⟨s, (dispatch_budget budgetRequest _).2 budgetRequest_spendable s hreached,
    of_decide_eq_true hfound⟩

/-- The first harness uses all of the tokens and breaks off. -/
def spentRun : List BudgetEvent :=
  [.resolve twoHarnesses, .lookedUp,
    .returned brokenOff { totalTokens := some (.finite 1000) } none, .resolve twoHarnesses]

theorem exhausted_started : ¬ ∀ s, Reached (BudgetState.step tokenRequest) (fun _ _ => True)
    (.called tokenRequest (.holding "exec-request" createdExecution.record)) s →
      RespectsBudget tokenRequest s := by
  intro h
  have hrun : (Reached.run (BudgetState.step tokenRequest)
      (.called tokenRequest (.holding "exec-request" createdExecution.record)) spentRun).any
        (fun s => s.handed.map (·.maxTokens) = [some (.finite 1000), some (.finite 0)]) = true := by
    decide +kernel
  obtain ⟨s, hs, hhanded⟩ := (Option.any_eq_true _ _).mp hrun
  have hreached : Reached (BudgetState.step tokenRequest) (fun _ _ => True)
      (.called tokenRequest (.holding "exec-request" createdExecution.record)) s :=
    Reached.of_run (fun _ _ => true) (fun _ _ _ => trivial) spentRun (by decide) hs .init
  have hlist : s.handed.map (·.maxTokens) = [some (.finite 1000), some (.finite 0)] :=
    of_decide_eq_true hhanded
  obtain ⟨given, hgiven, hzero⟩ : ∃ given, s.handed[1]? = some given ∧
      given.maxTokens = some (.finite 0) := by
    have hget := congrArg (fun l => l[1]?) hlist
    simpa using hget
  obtain ⟨r, hr, -, -, hne⟩ := ((h s hreached).budgets 1 given hgiven).1 _ rfl
  rw [hzero] at hr
  exact hne (Option.some.inj hr).symm

end Wazir.Harness
