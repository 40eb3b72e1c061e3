import Wazir.Goals.RouteDecision
import Wazir.Scheduling.AnyOrder
import Wazir.Shared.OwnProperties

/-! A route respects every hard rule, misses no instance that qualifies, and does not depend on the
order in which models and instances are registered. -/

namespace Wazir.Goals.Fleet

open Wazir.Core

variable {c : Candidate}

namespace RouterDeps

variable (deps : RouterDeps) (req : CapabilityRequirements) (request : RouteRequest)
  (record : ModelRecord) (instance' : ModelInstance)

/-- The instance can serve, and so can the computer that it names. -/
structure Servable : Prop where
  state : ∀ s ∈ instance'.state, s ∉ unservableStates
  health : instance'.health ≠ .unavailable
  runtime : ∀ r ∈ deps.runtime instance', r.health ≠ .unavailable
  registered : deps.isHostedInstance record instance' = true → deps.runtimes.isSome →
    (deps.runtime instance').isSome
  online : ∀ id ∈ truthy instance'.computerId, ∀ computers ∈ deps.computers,
    ∃ computer, computers.get id = some computer ∧ computer.status = "online" ∧
      computer.health ≠ .unavailable

/-- The estimated cost, where the pricing is known. -/
def estimatedCost : Option ℚ :=
  ((deps.pricing.bind (· record.id instance'.runtimeId)).bind Pricing.valid).map fun p =>
    round6 ((deps.inputTokens * p.1 + deps.outputTokens * p.2) / 1000000)

/-- A hosted instance costs at most what is left of a budget that is positive. -/
def Affordable : Prop :=
  deps.isHostedInstance record instance' = true → 0 < request.remainingHostedBudgetUsd ∧
    ∃ cost ∈ deps.estimatedCost record instance', cost ≤ request.remainingHostedBudgetUsd

/-- The memory that the computer has left holds a local model that is not resident. -/
def Fits : Prop :=
  deps.isHostedInstance record instance' = false → instance'.loaded = false →
    ∀ computer ∈ deps.computer instance', ∀ computers ∈ deps.computers,
    ∀ needed ∈ record.minSystemGB, needed ≠ 0 →
    ∀ snap, computers.resourceSnapshot computer.id = .ok snap →
    ∀ available ∈ snap.availableMemoryBytes,
      needed ≤ (available - ((snap.activeReservations.filter (!·.settled)).map (·.memoryBytes)).sum) /
        1024 ^ 3

/-- The instance meets every hard rule. -/
structure Qualifies : Prop where
  notExcluded : record.id ∉ request.excludeModelIds
  servable : Servable deps record instance'
  localOnly : req.localOnly = true → deps.isHostedInstance record instance' = false
  ready : ∃ readiness ∈ deps.readiness record.id instance'.id, deps.isFresh readiness = true ∧
    Capable deps.language req record instance' readiness
  affordable : Affordable deps request record instance'
  circuit : (deps.circuit record).state ≠ .opened
  fits : Fits deps record instance'

variable {deps req request record instance'}

theorem any_eq_false {α : Type} {p : α → Bool} {o : Option α} :
    o.any p = false ↔ ∀ a ∈ o, p a = false := by
  cases o <;> simp

theorem serves_ok : (∃ u, deps.servable record instance' = .ok u) ↔
    (∀ s ∈ instance'.state, s ∉ unservableStates) ∧ instance'.health ≠ .unavailable ∧
      (∀ r ∈ deps.runtime instance', r.health ≠ .unavailable) ∧
      (deps.isHostedInstance record instance' = true → deps.runtimes.isSome →
        (deps.runtime instance').isSome) := by
  simp only [servable, except_bind_eq_ok, rejectWhen_ok, any_eq_false, decide_eq_false_iff_not]
  cases hhosted : deps.isHostedInstance record instance' <;>
    cases deps.runtime instance' <;> simp

theorem computerOnline_ok : (∃ u, deps.computerOnline instance' = .ok u) ↔
    ∀ id ∈ truthy instance'.computerId, ∀ computers ∈ deps.computers,
      ∃ computer, computers.get id = some computer ∧ computer.status = "online" ∧
        computer.health ≠ .unavailable := by
  rw [computerOnline]
  split
  · rename_i id computers hid hcomputers
    rw [hid, hcomputers]
    cases hget : computers.get id <;> simp [hget, rejectWhen_ok]
  · rename_i hnone
    exact iff_of_true ⟨(), rfl⟩ fun id hid computers hcomputers =>
      (hnone id computers hid hcomputers).elim

theorem verifiedReady_ok {readiness : ReadinessRecord} :
    deps.verifiedReady record instance' = .ok readiness ↔
      deps.readiness record.id instance'.id = some readiness ∧ deps.isFresh readiness = true := by
  rw [verifiedReady]
  cases hread : deps.readiness record.id instance'.id with
  | none => exact iff_of_false (fun h => nomatch h) fun h => Option.some_ne_none _ h.1.symm
  | some r =>
    simp only [except_bind_eq_ok, rejectWhen_ok, Bool.not_eq_false', Option.some.injEq]
    constructor
    · rintro ⟨-, -, -, hfresh, hr⟩
      obtain rfl := Except.ok.inj hr
      exact ⟨rfl, hfresh⟩
    · rintro ⟨rfl, hfresh⟩
      exact ⟨(), (Bool.and_eq_true_iff.1 hfresh).1, (), hfresh, rfl⟩

theorem hostedSpend_ok {cost : ℚ} {text : String}
    (h : deps.hostedSpend request record instance' = .ok (cost, text)) :
    Affordable deps request record instance' ∧
      (deps.isHostedInstance record instance' = true → cost ≤ request.remainingHostedBudgetUsd) := by
  unfold hostedSpend at h
  by_cases hhosted : deps.isHostedInstance record instance' = true
  · simp only [hhosted, if_true, except_bind_eq_ok, rejectWhen_ok, decide_eq_false_iff_not,
      not_le] at h
    obtain ⟨-, hbudget, h⟩ := h
    split at h
    · cases h
    · rename_i input output hpricing
      simp only [except_bind_eq_ok, rejectWhen_ok, decide_eq_false_iff_not, not_lt] at h
      obtain ⟨-, hle, hcost⟩ := h
      obtain ⟨rfl, -⟩ := Prod.mk.inj (Except.ok.inj hcost)
      exact ⟨fun _ => ⟨hbudget, _, by simp [estimatedCost, hpricing], hle⟩, fun _ => hle⟩
  · exact ⟨fun h => absurd h hhosted, fun h => absurd h hhosted⟩

theorem hostedSpend_of_affordable (h : Affordable deps request record instance') :
    ∃ spend, deps.hostedSpend request record instance' = .ok spend := by
  unfold hostedSpend
  by_cases hhosted : deps.isHostedInstance record instance' = true
  · obtain ⟨hbudget, cost, hcost, hle⟩ := h hhosted
    obtain ⟨⟨input, output⟩, hpricing, rfl⟩ := Option.map_eq_some_iff.1 hcost
    rw [if_pos hhosted, hpricing]
    simp only [except_bind_eq_ok, rejectWhen_ok]
    exact ⟨_, (), by simpa using hbudget, (), by simpa using hle, rfl⟩
  · exact ⟨_, if_neg hhosted⟩

theorem fits_ok : (∃ reasons, deps.fits record instance' = .ok reasons) ↔
    Fits deps record instance' := by
  unfold fits Fits
  split
  · rename_i computer computers needed hcomputer hcomputers hneeded
    obtain ⟨hneeded, hne⟩ := Option.filter_eq_some_iff.1 hneeded
    simp only [hcomputer, hcomputers, hneeded, Option.mem_def, Option.some.injEq, forall_eq']
    by_cases hkept : (deps.isHostedInstance record instance' || instance'.loaded) = true
    · rw [if_pos hkept]
      refine iff_of_true ⟨[], rfl⟩ fun hlocal hresident => ?_
      simp [hlocal, hresident] at hkept
    · rw [if_neg hkept]
      rw [Bool.not_eq_true, Bool.or_eq_false_iff] at hkept
      simp only [hkept, true_implies]
      have hne : needed ≠ 0 := by simpa using hne
      cases hsnap : computers.resourceSnapshot computer.id with
      | error message => simp
      | ok snap =>
        cases havailable : snap.availableMemoryBytes with
        | none => simp [havailable]
        | some available =>
          simp only [havailable, Option.some.injEq, Except.ok.injEq, forall_eq', ne_eq, hne,
            not_false_eq_true, true_implies, ← not_lt]
          split_ifs with hless <;> simp [hless]
  · rename_i hnone
    refine iff_of_true ⟨[], rfl⟩ ?_
    intro _ _ computer hcomputer computers hcomputers needed hneeded hne
    exact (hnone computer computers needed hcomputer hcomputers
      (Option.filter_eq_some_iff.2 ⟨hneeded, by simpa using hne⟩)).elim

/-- What the hard rules leave of an instance. -/
theorem evaluateInstance_spec (hnot : record.id ∉ request.excludeModelIds)
    (h : deps.evaluateInstance req request record instance' = .ok c) :
    Qualifies deps req request record instance' ∧ c.instance' = instance' ∧
      c.hosted = deps.isHostedInstance record instance' ∧
      c.tier = (if request.localFirst && c.hosted then 1 else 0) ∧
      (c.hosted = true → c.estimatedCostUsd ≤ request.remainingHostedBudgetUsd) := by
  simp only [evaluateInstance, except_bind_eq_ok, rejectWhen_ok] at h
  obtain ⟨u, hserves, u', honline, -, hlocal, readiness, hready, caps, hcaps, ⟨cost, spend⟩, hspend, -,
    hcircuit, fit, hfit, hc⟩ := h
  obtain rfl := Except.ok.inj hc
  obtain ⟨hread, hfresh⟩ := verifiedReady_ok.1 hready
  obtain ⟨haffordable, hcost⟩ := hostedSpend_ok hspend
  obtain ⟨hstate, hhealth, hruntime, hregistered⟩ := serves_ok.1 ⟨u, hserves⟩
  refine ⟨⟨hnot, ⟨hstate, hhealth, hruntime, hregistered, computerOnline_ok.1 ⟨u', honline⟩⟩, ?_,
    ⟨readiness, hread, hfresh, checkCapabilities_ok.1 ⟨caps, hcaps⟩⟩, haffordable, ?_,
    fits_ok.1 ⟨fit, hfit⟩⟩, rfl, rfl, rfl, hcost⟩
  · intro hl
    simpa [hl] using hlocal
  · simpa using hcircuit

theorem evaluateInstance_of_qualifies (h : Qualifies deps req request record instance') :
    ∃ c, deps.evaluateInstance req request record instance' = .ok c := by
  obtain ⟨u, hserves⟩ := serves_ok.2
    ⟨h.servable.state, h.servable.health, h.servable.runtime, h.servable.registered⟩
  obtain ⟨u', honline⟩ := computerOnline_ok.2 h.servable.online
  obtain ⟨readiness, hread, hfresh, hcapable⟩ := h.ready
  obtain ⟨caps, hcaps⟩ := checkCapabilities_ok.2 hcapable
  obtain ⟨spend, hspend⟩ := hostedSpend_of_affordable h.affordable
  obtain ⟨fit, hfit⟩ := fits_ok.2 h.fits
  simp only [evaluateInstance, except_bind_eq_ok, rejectWhen_ok]
  refine ⟨_, u, hserves, u', honline, (), ?_, readiness, verifiedReady_ok.2 ⟨hread, hfresh⟩, caps,
    hcaps, spend, hspend, (), ?_, fit, hfit, rfl⟩
  · rw [Bool.and_eq_false_imp]
    exact h.localOnly
  · simpa using h.circuit

instance transCmp_compareInstance [Std.TransCmp deps.language.localeCompare] :
    Std.TransCmp deps.compareInstance :=
  inferInstanceAs (Std.TransCmp (compareLex (compareOn Candidate.tier)
    (compareLex (fun a b => compareOn Candidate.score b a)
      (Ordering.byKey (fun c : Candidate => c.instance'.id) deps.language.localeCompare))))

theorem tier_le {a b : Candidate} (h : (deps.compareInstance a b).isLE) : a.tier ≤ b.tier := by
  rw [compareInstance] at h
  cases hc : compare a.tier b.tier with
  | lt => exact (Nat.compare_eq_lt.1 hc).le
  | eq => exact (Nat.compare_eq_eq.1 hc).le
  | gt => simp [hc] at h

section Models

variable {models : ModelRegistry}

theorem mem_list {localeCompare : String → String → Ordering} :
    record ∈ models.list localeCompare ↔ record ∈ models.records :=
  mem_sortBy

theorem mem_instancesOf {localeCompare : String → String → Ordering} {modelId : String} :
    instance' ∈ models.instancesOf localeCompare modelId ↔
      instance' ∈ models.instances ∧ instance'.modelId = modelId := by
  simp [ModelRegistry.instancesOf, mem_sortBy]

/-- An instance of the model qualifies. -/
def Offers (deps : RouterDeps) (models : ModelRegistry) (req : CapabilityRequirements)
    (request : RouteRequest) (record : ModelRecord) (instance' : ModelInstance) : Prop :=
  record ∈ models.records ∧ instance' ∈ models.instances ∧ instance'.modelId = record.id ∧
    Qualifies deps req request record instance'

/-- The candidates of a model. -/
def candidates (deps : RouterDeps) (models : ModelRegistry) (req : CapabilityRequirements)
    (request : RouteRequest) (record : ModelRecord) : List Candidate :=
  (models.instancesOf deps.language.localeCompare record.id).filterMap fun i =>
    (deps.evaluateInstance req request record i).toOption

theorem toOption_eq_some {e : Except String Candidate} :
    e.toOption = some c ↔ e = .ok c := by
  cases e <;> simp [Except.toOption]

theorem mem_candidates : c ∈ candidates deps models req request record ↔
    ∃ i ∈ models.instances, i.modelId = record.id ∧
      deps.evaluateInstance req request record i = .ok c := by
  simp only [candidates, List.mem_filterMap, mem_instancesOf, and_assoc, toOption_eq_some]

theorem best_eq : (deps.evaluateModel models req request record).best =
    if record.id ∈ request.excludeModelIds then none
    else (sortBy deps.compareInstance (candidates deps models req request record)).head? := by
  simp only [evaluateModel]
  split_ifs with hexcluded hempty
  · rfl
  · rw [candidates, List.eq_nil_of_length_eq_zero hempty]
    rfl
  · have hcandidates : ((models.instancesOf deps.language.localeCompare record.id).map
        fun i => (i, deps.evaluateInstance req request record i)).filterMap (fun e => e.2.toOption) =
        candidates deps models req request record := List.filterMap_map
    simp only [hcandidates]
    cases sortBy deps.compareInstance (candidates deps models req request record) <;> rfl

theorem evaluateModel_record : (deps.evaluateModel models req request record).record = record := by
  simp only [evaluateModel]
  split_ifs
  · rfl
  · rfl
  · split <;> rfl

/-- The head of a sorted list is below all its members. -/
theorem head_isLE {α : Type} {cmp : α → α → Ordering} [Std.TransCmp cmp] {l : List α} {a b : α}
    (ha : (sortBy cmp l).head? = some a) (hb : b ∈ l) : (cmp a b).isLE := by
  obtain ⟨rest, hrest⟩ := List.head?_eq_some_iff.1 ha
  have hsorted : (sortBy cmp l).Pairwise fun a b => (cmp a b).isLE :=
    @sortBy_pairwise α α cmp _ id l
  have hmem : b ∈ sortBy cmp l := mem_sortBy.2 hb
  rw [hrest] at hsorted hmem
  rcases List.mem_cons.1 hmem with rfl | hmem
  · exact Ordering.isLE_of_eq_eq Std.ReflCmp.compare_self
  · exact (List.pairwise_cons.1 hsorted).1 b hmem

/-- What the best instance of a model is. -/
theorem best_spec (h : (deps.evaluateModel models req request record).best = some c) :
    record.id ∉ request.excludeModelIds ∧ ∃ i ∈ models.instances, i.modelId = record.id ∧
      deps.evaluateInstance req request record i = .ok c := by
  rw [best_eq] at h
  split_ifs at h with hexcluded
  exact ⟨hexcluded, mem_candidates.1 (mem_sortBy.1 (List.mem_of_head? h))⟩

/-- The best instance of a model ranks before each one that qualifies. -/
theorem best_of_qualifies [Std.TransCmp deps.language.localeCompare] {i : ModelInstance}
    (hi : i ∈ models.instances) (hmodel : i.modelId = record.id)
    (h : Qualifies deps req request record i) :
    ∃ best c, (deps.evaluateModel models req request record).best = some best ∧
      deps.evaluateInstance req request record i = .ok c ∧ (deps.compareInstance best c).isLE := by
  obtain ⟨c, hc⟩ := evaluateInstance_of_qualifies h
  have hmem : c ∈ candidates deps models req request record := mem_candidates.2 ⟨i, hi, hmodel, hc⟩
  have hne : sortBy deps.compareInstance (candidates deps models req request record) ≠ [] :=
    List.ne_nil_of_mem (mem_sortBy.2 hmem)
  refine ⟨_, c, ?_, hc, head_isLE (List.head?_eq_some_head hne) hmem⟩
  rw [best_eq, if_neg h.notExcluded, List.head?_eq_some_head hne]

end Models

section Route

variable {models : ModelRegistry} {input : RouteInput}

def compareRanked (deps : RouterDeps) (a b : ModelRecord × Candidate) : Ordering :=
  (deps.compareInstance a.2 b.2).then (deps.language.localeCompare a.1.id b.1.id)

instance transCmp_compareRanked [Std.TransCmp deps.language.localeCompare] :
    Std.TransCmp (compareRanked deps) :=
  inferInstanceAs (Std.TransCmp (compareLex (Ordering.byKey Prod.snd deps.compareInstance)
    (Ordering.byKey (fun w : ModelRecord × Candidate => w.1.id) deps.language.localeCompare)))

theorem mem_ranked {evals : List ModelEval} {w : ModelRecord × Candidate} :
    w ∈ deps.ranked evals ↔ ∃ e ∈ evals, e.record = w.1 ∧ e.best = some w.2 := by
  obtain ⟨record, best⟩ := w
  simp only [ranked, mem_sortBy, List.mem_filterMap, Option.map_eq_some_iff, Prod.mk.injEq]
  constructor
  · rintro ⟨e, he, b, hb, hrecord, rfl⟩
    exact ⟨e, he, hrecord, hb⟩
  · rintro ⟨e, he, hrecord, hb⟩
    exact ⟨e, he, best, hb, hrecord, rfl⟩

/-- The models' evaluations, as the router lists them. -/
def evaluations (deps : RouterDeps) (models : ModelRegistry) (req : CapabilityRequirements)
    (request : RouteRequest) : List ModelEval :=
  (models.list deps.language.localeCompare).map (deps.evaluateModel models req request)

theorem mem_ranked_evaluations {w : ModelRecord × Candidate} :
    w ∈ deps.ranked (evaluations deps models req request) ↔
      w.1 ∈ models.records ∧ (deps.evaluateModel models req request w.1).best = some w.2 := by
  rw [mem_ranked]
  constructor
  · rintro ⟨e, he, hrecord, hbest⟩
    obtain ⟨record, hmem, rfl⟩ := List.mem_map.1 he
    rw [evaluateModel_record] at hrecord
    subst hrecord
    exact ⟨mem_list.1 hmem, hbest⟩
  · rintro ⟨hmem, hbest⟩
    exact ⟨_, List.mem_map_of_mem (mem_list.2 hmem), evaluateModel_record, hbest⟩

/-- The winner is at most as far as the best instance of any model. -/
theorem winner_tier [Std.TransCmp deps.language.localeCompare] {w w' : ModelRecord × Candidate}
    {evals : List ModelEval} (hw : (deps.ranked evals).head? = some w)
    (hw' : w' ∈ deps.ranked evals) : w.2.tier ≤ w'.2.tier := by
  have hle : (compareRanked deps w w').isLE := head_isLE hw (mem_sortBy.1 hw')
  refine @tier_le deps _ _ ?_
  rw [compareRanked] at hle
  cases hc : deps.compareInstance w.2 w'.2 <;> simp [hc] at hle ⊢

theorem route_winner {d : GoalModelRouteDecision} (h : deps.route models input = some d) :
    ∃ w, (deps.ranked (evaluations deps models
        (parseCapabilities deps.language input.request.requiredCapabilities) input.request)).head? =
        some w ∧ d.modelId = w.1.id ∧ d.instanceId = w.2.instance'.id ∧ d.hosted = w.2.hosted ∧
      d.estimatedCostUsd = w.2.estimatedCostUsd := by
  obtain ⟨w, hw, rfl⟩ := Option.map_eq_some_iff.1 h
  exact ⟨w, hw, rfl, rfl, rfl, rfl⟩

theorem route_eq_none : deps.route models input = none ↔
    ∀ w, w ∉ deps.ranked (evaluations deps models
      (parseCapabilities deps.language input.request.requiredCapabilities) input.request) := by
  rw [← List.eq_nil_iff_forall_not_mem, ← List.head?_eq_none_iff]
  exact Option.map_eq_none_iff

/-- The order of registration changes nothing. -/
theorem route_perm [Std.TransCmp deps.language.localeCompare] {models' : ModelRegistry}
    (hrecords : models.records.Perm models'.records)
    (hinstances : models.instances.Perm models'.instances)
    (hids : Scheduling.Separates deps.language.localeCompare (models.records.map ModelRecord.id))
    (hinstanceIds : Scheduling.Separates deps.language.localeCompare
      (models.instances.map ModelInstance.id)) :
    deps.route models input = deps.route models' input := by
  have hlist : models.list deps.language.localeCompare = models'.list deps.language.localeCompare :=
    sortBy_key_perm hrecords models.recordIds fun _ ha _ hb =>
      hids _ (List.mem_map_of_mem ha) _ (List.mem_map_of_mem hb)
  have hof : models.instancesOf deps.language.localeCompare =
      models'.instancesOf deps.language.localeCompare := by
    funext modelId
    refine sortBy_key_perm (hinstances.filter _)
      (models.instanceIds.sublist (List.filter_sublist.map _)) fun _ ha _ hb => ?_
    exact hinstanceIds _ (List.mem_map_of_mem (List.mem_of_mem_filter ha)) _
      (List.mem_map_of_mem (List.mem_of_mem_filter hb))
  have hmodel : deps.evaluateModel models = deps.evaluateModel models' := by
    funext req request record
    simp only [evaluateModel, hof]
  simp only [route, hlist, hmodel]

/-- A route respects every hard rule, prefers local instances where it should, is found if an
instance qualifies, and is the same for every order of registration. -/
theorem route_exact (deps : RouterDeps) [Std.TransCmp deps.language.localeCompare]
    (models : ModelRegistry) (input : RouteInput) :
    let req := parseCapabilities deps.language input.request.requiredCapabilities
    let Offered := Offers deps models req input.request
    (∀ d, deps.route models input = some d → ∃ record i, Offered record i ∧
      d.modelId = record.id ∧ d.instanceId = i.id ∧ d.hosted = deps.isHostedInstance record i ∧
      (d.hosted = true → 0 < input.request.remainingHostedBudgetUsd ∧
        d.estimatedCostUsd ≤ input.request.remainingHostedBudgetUsd) ∧
      (input.request.localFirst = true → d.hosted = true →
        ∀ record' i', Offered record' i' → deps.isHostedInstance record' i' = true)) ∧
    (deps.route models input = none ↔ ∀ record i, ¬ Offered record i) ∧
    ∀ models' : ModelRegistry, models.records.Perm models'.records →
      models.instances.Perm models'.instances →
      Scheduling.Separates deps.language.localeCompare (models.records.map ModelRecord.id) →
      Scheduling.Separates deps.language.localeCompare (models.instances.map ModelInstance.id) →
      deps.route models input = deps.route models' input := by
  intro req Offered
  refine ⟨fun d hd => ?_, ?_, fun models' hrecords hinstances hids hinstanceIds =>
    route_perm hrecords hinstances hids hinstanceIds⟩
  · obtain ⟨⟨record, b⟩, hw, hmodelId, hinstanceId, hhosted, hcost⟩ := route_winner hd
    obtain ⟨hrecord, hbest⟩ := mem_ranked_evaluations.1 (List.mem_of_head? hw)
    obtain ⟨hnot, i, hi, hmodel, heval⟩ := best_spec hbest
    obtain ⟨hqualifies, hinstance, hisHosted, htier, hspend⟩ := evaluateInstance_spec hnot heval
    refine ⟨record, i, ⟨hrecord, hi, hmodel, hqualifies⟩, hmodelId, hinstance ▸ hinstanceId,
      hhosted.trans hisHosted, fun hd => ?_, fun hlocalFirst hd record' i' hoffer => ?_⟩
    · rw [hhosted] at hd
      exact ⟨(hqualifies.affordable (hisHosted ▸ hd)).1, hcost ▸ hspend hd⟩
    · by_contra hlocal
      obtain ⟨hrecord', hi', hmodel', hqualifies'⟩ := hoffer
      obtain ⟨best', c', hbest', heval', hle⟩ := best_of_qualifies hi' hmodel' hqualifies'
      obtain ⟨-, -, hisHosted', htier', -⟩ := evaluateInstance_spec hqualifies'.notExcluded heval'
      have hmem : (record', best') ∈ deps.ranked (evaluations deps models req input.request) :=
        mem_ranked_evaluations.2 ⟨hrecord', hbest'⟩
      have hwinner : b.tier ≤ best'.tier := winner_tier hw hmem
      have hbestTier : best'.tier ≤ c'.tier := tier_le hle
      have hb : b.hosted = true := hhosted ▸ hd
      have hfar : b.tier = 1 := by simpa [hlocalFirst, hb] using htier
      rw [← hisHosted', Bool.not_eq_true] at hlocal
      have hnear : c'.tier = 0 := by simpa [hlocal] using htier'
      omega
  · rw [route_eq_none]
    constructor
    · rintro hnone record i ⟨hrecord, hi, hmodel, hqualifies⟩
      obtain ⟨best, c, hbest, -, -⟩ := best_of_qualifies hi hmodel hqualifies
      exact hnone (record, best) (mem_ranked_evaluations.2 ⟨hrecord, hbest⟩)
    · rintro hnone ⟨record, b⟩ hw
      obtain ⟨hrecord, hbest⟩ := mem_ranked_evaluations.1 hw
      obtain ⟨hnot, i, hi, hmodel, heval⟩ := best_spec hbest
      exact hnone record i ⟨hrecord, hi, hmodel, (evaluateInstance_spec hnot heval).1⟩

end Route

end RouterDeps

section Instances

/-- Strings are compared without their soft hyphens, as a locale does. -/
def compareHyphenless (a b : String) : Ordering :=
  let visible (s : String) : String := String.ofList (s.toList.filter (· ≠ '\u00ad'))
  compareStrings (visible a) (visible b)

instance : Std.TransCmp compareHyphenless :=
  inferInstanceAs (Std.TransCmp (Ordering.byKey (fun s : String =>
    String.ofList (s.toList.filter (· ≠ '\u00ad'))) compareStrings))

def quietDeps : RouterDeps where
  language := ⟨compareHyphenless, fun s => String.ofList (s.toList.map Char.toLower),
    fun q => toString q.num, fun q => toString q.num⟩
  runtimes := none
  computers := some ⟨fun _ => none, fun _ => .error ""⟩
  reliability := .fresh
  options := {}
  readiness _ _ := some ⟨true, "now", none, "probe", .verified, ""⟩
  ttlMs := 600000
  parseDate _ := some ⟨0, epoch_valid⟩
  now := ⟨0, epoch_valid⟩
  pricing := some fun _ _ => some ⟨.finite 1, .finite 1⟩
  inputTokens := 8000
  outputTokens := 2000
  taskClass := "goal-studio"
  outcomes := []

def hostedRecord (id : String) : ModelRecord where
  id := id
  family := "gpt"
  contextMax := 8192
  configuredContext := none
  capabilities := []
  toolCalling := true
  structuredOutput := false
  vision := false
  audio := false
  embedding := false
  reasoning := false
  minSystemGB := none
  runtimeCompatibility := none
  isLocal := false
  performance := []

def hostedInstance (id modelId : String) : ModelInstance where
  id := id
  modelId := modelId
  computerId := none
  runtimeId := "openai"
  loaded := true
  state := some .ready
  health := .healthy
  contextTokens := none
  error := none

def oneModel : ModelRegistry :=
  ⟨[hostedRecord "m"], [hostedInstance "i" "m"], by decide, by decide⟩

def hyphenated (records : List ModelRecord) (h : (records.map ModelRecord.id).Nodup) :
    ModelRegistry :=
  ⟨records, [hostedInstance "i" "ab", hostedInstance "i\u00ad" "a\u00adb"], h, by decide⟩

def oneDollar : RouteInput := ⟨[], .finite 1, none, none⟩

/-- Two models, of which the second sees. -/
def twoModels : ModelRegistry :=
  ⟨[hostedRecord "m", { hostedRecord "n" with vision := true }],
    [hostedInstance "i" "m", hostedInstance "j" "n"], by decide, by decide⟩

def seeing : RouteInput := { oneDollar with requiredCapabilities := ["vision"] }

/-- The model that does not see is not routed to. -/
theorem route_exact_hosted : (quietDeps.route twoModels seeing).map (·.modelId) = some "n" ∧
    ∃ record i, RouterDeps.Offers quietDeps twoModels
      (parseCapabilities quietDeps.language seeing.request.requiredCapabilities) seeing.request
      record i := by
  have : Std.TransCmp quietDeps.language.localeCompare :=
    inferInstanceAs (Std.TransCmp compareHyphenless)
  have hroute : (quietDeps.route twoModels seeing).map (·.modelId) = some "n" := by decide +kernel
  obtain ⟨d, hd, -⟩ := Option.map_eq_some_iff.1 hroute
  obtain ⟨record, i, hoffer, -⟩ := (RouterDeps.route_exact quietDeps twoModels seeing).1 d hd
  exact ⟨hroute, record, i, hoffer⟩

/-- A hosted instance is on no computer, and ids that the locale does not tell apart are taken in the
order of registration. -/
theorem route_unplaced : (¬ ∀ (deps : RouterDeps) (models : ModelRegistry) (input : RouteInput)
      (d : GoalModelRouteDecision), Std.TransCmp deps.language.localeCompare →
      deps.route models input = some d → ∃ id ∈ d.computerId, ∃ computers ∈ deps.computers,
        ∃ computer, computers.get id = some computer ∧ computer.status = "online") ∧
    ¬ ∀ (deps : RouterDeps) (models models' : ModelRegistry) (input : RouteInput),
      Std.TransCmp deps.language.localeCompare → models.records.Perm models'.records →
      models.instances.Perm models'.instances →
      deps.route models input = deps.route models' input := by
  have htrans : Std.TransCmp quietDeps.language.localeCompare :=
    inferInstanceAs (Std.TransCmp compareHyphenless)
  constructor
  · intro h
    have hroute : (quietDeps.route oneModel oneDollar).map (·.computerId) = some none := by
      decide +kernel
    obtain ⟨d, hd, hcomputer⟩ := Option.map_eq_some_iff.1 hroute
    obtain ⟨id, hid, -⟩ := h quietDeps oneModel oneDollar d htrans hd
    simp [hcomputer] at hid
  · intro h
    have hsame := h quietDeps
      (hyphenated [hostedRecord "ab", hostedRecord "a\u00adb"] (by decide))
      (hyphenated [hostedRecord "a\u00adb", hostedRecord "ab"] (by decide)) oneDollar htrans
      (.swap _ _ _) (.refl _)
    have hmodel := congrArg (Option.map (·.modelId)) hsame
    revert hmodel
    decide +kernel

end Instances

end Wazir.Goals.Fleet
