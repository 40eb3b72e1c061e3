import Wazir.Goals.ModelRouter
import Wazir.Shared.KeyedLists
import Wazir.Shared.Lookups
import Wazir.Shared.NumberText
import Wazir.Shared.OwnProperties
import Wazir.Shared.Throwing
import Wazir.Checkpoints.RestartKept

/-! When a router that starts on the outcomes another one stored knows what that one knew. The store
gives the time of an outcome back as a `Date`, and `hydrate` passes over such an outcome: in the years
of four digits nothing survives. -/

namespace Wazir.Goals.Routing

open Wazir.Core JsValue

/-! The records that a run of calls makes. -/

namespace RouterDeps

variable (deps : RouterDeps)

def attributable (call : Call) : Bool := (deps.feedback .fresh call.input call.now).2

theorem feedback_snd (t : ModelReliabilityTracker) (call : Call) :
    (deps.feedback t call.input call.now).2 = deps.attributable call := by
  simp only [attributable, feedback]
  cases call.input.terminationReason.filter (· ≠ "") with
  | some reason =>
    simp only [ModelReliabilityTracker.recordTermination]
    cases classifyTerminationForReliability reason <;> rfl
  | none => split_ifs <;> rfl

/-- The record of the call that was made as the `n`th. -/
def recordOf (numbered : Call × ℕ) : RouteOutcomeRecord :=
  deps.outcomeRecord numbered.1.input numbered.1.now numbered.2 (deps.attributable numbered.1)

def recorded (calls : List Call) : List RouteOutcomeRecord :=
  (calls.zipIdx 1).map deps.recordOf

def keyOf (r : RouteOutcomeRecord) : String := outcomeKey r.modelId r.seq r.recordedAt

/-- The circuits after the calls. -/
def circuits (calls : List Call) : ModelReliabilityTracker :=
  calls.foldl (fun t call => (deps.feedback t call.input call.now).1) .fresh

def run (calls : List Call) : Router × Stored :=
  calls.foldl deps.recordOutcome (Router.fresh, [])

end RouterDeps

theorem notMem_padded {width n : ℕ} : '-' ∉ (padded width n).toList := by
  intro h
  exact absurd (padded_digits _ h) (by decide)

theorem numbered_inj {s s' : String} {width n n' : ℕ}
    (h : s ++ "-" ++ padded width n = s' ++ "-" ++ padded width n') : n = n' := by
  have hback : ∀ (t : String) (m : ℕ), (t ++ "-" ++ padded width m).toList.reverse =
      (padded width m).toList.reverse ++ '-' :: t.toList.reverse := by
    intro t m
    simp [String.toList_append]
  have hlist := congrArg (fun s : String => s.toList.reverse) h
  simp only [hback] at hlist
  have hdash : ∀ m, '-' ∉ (padded width m).toList.reverse := fun m hm =>
    notMem_padded (List.mem_reverse.mp hm)
  have hdigits := (separator_inj (hdash n) (hdash n') hlist).1
  exact padded_inj (String.toList_inj.mp (List.reverse_injective hdigits))

/-- The number of an outcome stands at the end of its key. -/
theorem outcomeKey_inj {modelId modelId' recordedAt recordedAt' : String} {seq seq' : ℕ}
    (h : outcomeKey modelId seq recordedAt = outcomeKey modelId' seq' recordedAt') :
    seq = seq' :=
  numbered_inj h

section Run

variable {deps : RouterDeps} {calls : List Call}

theorem recorded_concat (calls : List Call) (call : Call) : deps.recorded (calls ++ [call]) =
    deps.recorded calls ++ [deps.recordOf (call, calls.length + 1)] := by
  rw [RouterDeps.recorded, List.zipIdx_append, List.map_append, Nat.add_comm]
  rfl

theorem recorded_seqs : (deps.recorded calls).map (·.seq) = List.range' 1 calls.length := by
  rw [RouterDeps.recorded, List.map_map]
  exact List.zipIdx_map_snd 1 calls

theorem recorded_nodup : ((deps.recorded calls).map (·.seq)).Nodup := by
  rw [recorded_seqs]
  exact List.nodup_range'

theorem seq_le {r : RouteOutcomeRecord} (h : r ∈ deps.recorded calls) : r.seq ≤ calls.length := by
  have hmem := List.mem_map_of_mem (f := (·.seq)) h
  rw [recorded_seqs, List.mem_range'_1] at hmem
  omega

theorem circuits_concat (calls : List Call) (call : Call) : deps.circuits (calls ++ [call]) =
    (deps.feedback (deps.circuits calls) call.input call.now).1 := by
  rw [RouterDeps.circuits, List.foldl_append]
  rfl

theorem run_eq : deps.run calls =
    (⟨(deps.recorded calls).map (·.toJs), calls.length, deps.circuits calls⟩,
      (deps.recorded calls).map fun r => (RouterDeps.keyOf r, r.toJs)) := by
  induction calls using List.reverseRecOn with
  | nil => rfl
  | append_singleton calls call ih =>
    have hnew : RouterDeps.keyOf (deps.recordOf (call, calls.length + 1)) ∉
        ((deps.recorded calls).map fun r => (RouterDeps.keyOf r, r.toJs)).map Prod.fst := by
      intro hmem
      rw [List.map_map] at hmem
      obtain ⟨r, hr, hkey⟩ := List.mem_map.mp hmem
      have hseq : r.seq = calls.length + 1 := outcomeKey_inj hkey
      have := seq_le hr
      omega
    rw [RouterDeps.run, List.foldl_append, ← RouterDeps.run, ih, recorded_concat, List.map_append,
      List.map_append, List.length_append, circuits_concat]
    simp only [List.foldl_cons, List.foldl_nil, RouterDeps.recordOutcome, deps.feedback_snd]
    exact Prod.ext rfl (if_neg hnew)

end Run

/-! What the store gives back of a record. -/

theorem fields_nodup (r : RouteOutcomeRecord) : (r.fields.map Prod.fst).Nodup := by
  have hnames : r.fields.map Prod.fst = ["seq", "modelId", "instanceId", "runtimeId", "computerId",
      "hosted", "ok", "attributable", "taskClass", "estimatedCostUsd", "actualCostUsd",
      "estimatedLatencyMs", "actualLatencyMs", "error", "terminationReason", "runId", "targetId",
      "attemptId", "recordedAt"] := rfl
  rw [hnames]
  decide

theorem fields_safe (r : RouteOutcomeRecord) : SafeFields r.fields := by
  have hnames : r.fields.map Prod.fst = ["seq", "modelId", "instanceId", "runtimeId", "computerId",
      "hosted", "ok", "attributable", "taskClass", "estimatedCostUsd", "actualCostUsd",
      "estimatedLatencyMs", "actualLatencyMs", "error", "terminationReason", "runId", "targetId",
      "attemptId", "recordedAt"] := rfl
  have hsafe : (r.fields.map Prod.fst).all fun key => key ∉ unsafeKeys := by
    rw [hnames]
    decide
  intro kv hkv
  simpa using List.all_eq_true.mp hsafe kv.1 (List.mem_map_of_mem hkv)

theorem lookup_defined {fields : List (String × JsValue)} (hnodup : (fields.map Prod.fst).Nodup)
    (f : JsValue → JsValue) (key : String) :
    (JsValue.obj ((fields.filter fun kv => !kv.2.isUndefined).map fun kv => (kv.1, f kv.2))).get
      key = if ((JsValue.obj fields).get key).isUndefined then .undefined
        else f ((JsValue.obj fields).get key) := by
  have hfilter : ((fields.filter fun kv => !kv.2.isUndefined).map Prod.fst).Nodup :=
    hnodup.sublist (List.filter_sublist.map Prod.fst)
  rw [get_obj, get_obj, lookup_map]
  cases hlookup : fields.lookup key with
  | none =>
    have hnone : (fields.filter fun kv => !kv.2.isUndefined).lookup key = none := by
      rw [lookup_eq_none_mem] at hlookup ⊢
      exact fun h => hlookup ((List.filter_sublist.map Prod.fst).subset h)
    rw [hnone]
    rfl
  | some v =>
    rw [lookup_eq_some_mem hnodup] at hlookup
    rw [Option.getD_some]
    cases hv : v.isUndefined with
    | true =>
      have hnone : (fields.filter fun kv => !kv.2.isUndefined).lookup key = none := by
        rw [lookup_eq_none_mem]
        intro h
        obtain ⟨kv, hkv, hkey⟩ := List.mem_map.mp h
        obtain ⟨hmem, hdef⟩ := List.mem_filter.mp hkv
        have hsame := List.inj_on_of_nodup_map hnodup hmem hlookup hkey
        simp [hsame, hv] at hdef
      rw [hnone]
      rfl
    | false =>
      have hsome : (fields.filter fun kv => !kv.2.isUndefined).lookup key = some v :=
        (lookup_eq_some_mem hfilter).mpr (List.mem_filter.mpr ⟨hlookup, by simp [hv]⟩)
      rw [hsome]
      rfl

/-- The store gives the value of a member back as it was. -/
def KeptMember (store : RevivingStore) (v : JsValue) : Prop :=
  v.isUndefined = false → store.keeps v = true

/-- What is seen of two objects is the same. -/
def SameOutcome (a b : JsValue) : Prop := ∀ key, a.get key = b.get key

section Kept

variable (store : RevivingStore) {parseDate : String → JsDate}
  (hparse : ∀ t, parseDate (isoText t) = some t)

theorem get_reload_record (r : RouteOutcomeRecord) (key : String) :
    (store.reload parseDate r.toJs).get key = if (r.toJs.get key).isUndefined then .undefined
      else store.reload parseDate (r.toJs.get key) := by
  rw [RouteOutcomeRecord.toJs, reload_obj store parseDate (fields_safe r),
    lookup_defined (fields_nodup r)]

include hparse in
/-- A record comes back as it was if each of its members does. -/
theorem sameOutcome_reload_iff (r : RouteOutcomeRecord) :
    SameOutcome (store.reload parseDate r.toJs) r.toJs ↔
      ∀ kv ∈ r.fields, KeptMember store kv.2 := by
  constructor
  · intro h kv hkv hdef
    have hget : r.toJs.get kv.1 = kv.2 := by
      rw [RouteOutcomeRecord.toJs, get_obj, (lookup_eq_some_mem (fields_nodup r)).mpr hkv,
        Option.getD_some]
    have hkey := h kv.1
    rw [get_reload_record, hget, if_neg (by simp [hdef])] at hkey
    exact (RevivingStore.reload_eq_self_iff store hparse _).mp hkey
  · intro h key
    rw [get_reload_record]
    cases hdef : (r.toJs.get key).isUndefined with
    | true =>
      rw [if_pos rfl]
      cases hv : r.toJs.get key <;> simp [hv, isUndefined] at hdef ⊢
    | false =>
      rw [if_neg (by simp)]
      have hmem : (key, r.toJs.get key) ∈ r.fields := by
        rw [RouteOutcomeRecord.toJs, get_obj] at hdef ⊢
        cases hlookup : r.fields.lookup key with
        | none =>
          rw [hlookup] at hdef
          cases hdef
        | some v => exact mem_of_lookup hlookup
      exact (RevivingStore.reload_eq_self_iff store hparse _).mpr (h _ hmem hdef)

end Kept

/-! Which calls leave a record that comes back as it was. -/

namespace RouterDeps

variable (deps : RouterDeps)

/-- The texts of a call's record. -/
def texts (call : Call) : List String :=
  [call.input.decision.modelId, call.input.decision.runtimeId,
    call.input.taskClass.getD deps.taskClass, isoText call.now] ++
  [call.input.decision.instanceId, call.input.decision.computerId,
    call.input.error.map errorMessage, call.input.terminationReason, call.input.runId,
    call.input.targetId, call.input.attemptId].flatMap Option.toList

/-- The numbers that a call's record takes over. -/
def numbers (call : Call) : List JsNumber :=
  [call.input.decision.estimatedCostUsd.getD (.finite 0),
    wholeMs (call.input.latencyMs.getD (.finite 0))] ++
  call.input.decision.estimatedLatencyMs.toList

/-- No text of the record reads as an ISO date, its time included, and its numbers are finite. -/
structure Kept (call : Call) : Prop where
  texts : ∀ s ∈ deps.texts call, isIsoDateString s = false
  numbers : ∀ n ∈ numbers call, ∃ q, n = .finite q

end RouterDeps

section Kept

variable {store : RevivingStore}

theorem keptMember_bool {b : Bool} : KeptMember store (.bool b) ↔ True := by
  simp [KeptMember, RevivingStore.keeps]

theorem keptMember_nat {n : ℕ} : KeptMember store (.nat n) ↔ True := by
  simp [KeptMember, JsValue.nat, RevivingStore.keeps]

theorem keptMember_str {s : String} : KeptMember store (.str s) ↔ isIsoDateString s = false := by
  simp [KeptMember, RevivingStore.keeps, isUndefined]

theorem keptMember_num {n : JsNumber} : KeptMember store (.num n) ↔ ∃ q, n = .finite q := by
  cases n <;> simp [KeptMember, RevivingStore.keeps, isUndefined]

theorem keptMember_optional {s : Option String} :
    KeptMember store (optional s) ↔ ∀ t ∈ s.toList, isIsoDateString t = false := by
  cases s with
  | none => simp [KeptMember, optional, isUndefined]
  | some t => simpa [optional] using keptMember_str

theorem keptMember_optionalNumber {n : Option JsNumber} :
    KeptMember store (optionalNumber n) ↔ ∀ m ∈ n.toList, ∃ q, m = .finite q := by
  cases n with
  | none => simp [KeptMember, optionalNumber, isUndefined]
  | some m => simpa [optionalNumber] using keptMember_num

/-- A cost is finite where the estimate is. -/
theorem actualCost_finite (deps : RouterDeps) (numbered : Call × ℕ)
    (h : ∃ q, numbered.1.input.decision.estimatedCostUsd.getD (.finite 0) = .finite q) :
    ∃ q, (deps.recordOf numbered).actualCostUsd = .finite q := by
  simp only [RouterDeps.recordOf, RouterDeps.outcomeRecord]
  split
  · exact ⟨_, rfl⟩
  · split_ifs
    · exact h
    · exact ⟨0, rfl⟩

theorem keeps_fields_iff (deps : RouterDeps) (numbered : Call × ℕ) :
    (∀ kv ∈ (deps.recordOf numbered).fields, KeptMember store kv.2) ↔ deps.Kept numbered.1 := by
  have hactual := actualCost_finite deps numbered
  simp only [RouteOutcomeRecord.fields, List.forall_mem_cons, keptMember_bool, keptMember_nat,
    keptMember_str, keptMember_num, keptMember_optional, keptMember_optionalNumber, true_and]
  constructor
  · rintro ⟨hmodel, hinstance, hruntime, hcomputer, htask, hestimated, -, hlatency, hms, herror,
      hreason, hrun, htarget, hattempt, hrecorded, -⟩
    refine ⟨?_, ?_⟩
    · simp only [RouterDeps.texts, List.flatMap_cons, List.flatMap_nil, List.append_nil,
        List.forall_mem_append, List.forall_mem_cons]
      exact ⟨⟨hmodel, hruntime, htask, hrecorded, List.forall_mem_nil _⟩, hinstance, hcomputer,
        herror, hreason, hrun, htarget, hattempt⟩
    · simp only [RouterDeps.numbers, List.forall_mem_append, List.forall_mem_cons]
      exact ⟨⟨hestimated, hms, List.forall_mem_nil _⟩, hlatency⟩
  · rintro ⟨htexts, hnumbers⟩
    simp only [RouterDeps.texts, List.flatMap_cons, List.flatMap_nil, List.append_nil,
      List.forall_mem_append, List.forall_mem_cons] at htexts
    simp only [RouterDeps.numbers, List.forall_mem_append, List.forall_mem_cons] at hnumbers
    obtain ⟨⟨hmodel, hruntime, htask, hrecorded, -⟩, hinstance, hcomputer, herror, hreason, hrun,
      htarget, hattempt⟩ := htexts
    obtain ⟨⟨hestimated, hms, -⟩, hlatency⟩ := hnumbers
    exact ⟨hmodel, hinstance, hruntime, hcomputer, htask, hestimated, hactual hestimated, hlatency,
      hms, herror, hreason, hrun, htarget, hattempt, hrecorded, List.forall_mem_nil _⟩

end Kept

/-! What a router shows depends on what is seen of its outcomes. -/

section Same

variable {l l' : List JsValue}

theorem same_filter {p : JsValue → Bool} (hp : ∀ a b, SameOutcome a b → p a = p b)
    (h : List.Forall₂ SameOutcome l l') : List.Forall₂ SameOutcome (l.filter p) (l'.filter p) := by
  induction h with
  | nil => exact .nil
  | @cons a b _ _ hab _ ih =>
    rw [List.filter_cons, List.filter_cons, hp a b hab]
    split_ifs
    · exact .cons hab ih
    · exact ih

theorem same_map {α : Type} {f : JsValue → α} (hf : ∀ a b, SameOutcome a b → f a = f b)
    (h : List.Forall₂ SameOutcome l l') : l.map f = l'.map f := by
  induction h with
  | nil => rfl
  | cons hab _ ih => rw [List.map_cons, List.map_cons, hf _ _ hab, ih]

theorem same_filterMap {α : Type} {f : JsValue → Option α}
    (hf : ∀ a b, SameOutcome a b → f a = f b) (h : List.Forall₂ SameOutcome l l') :
    l.filterMap f = l'.filterMap f := by
  induction h with
  | nil => rfl
  | cons hab _ ih => rw [List.filterMap_cons, List.filterMap_cons, hf _ _ hab, ih]

theorem accountingFor_same (roundings : Roundings) (h : List.Forall₂ SameOutcome l l')
    (modelId : String) : accountingFor roundings l modelId = accountingFor roundings l' modelId := by
  have hget : ∀ key a b, SameOutcome a b → a.get key = b.get key := fun key _ _ hab => hab key
  have hall := same_filter (p := fun o => (o.get "modelId").string = some modelId)
    (fun a b hab => by rw [hab "modelId"]) h
  have htruthy : ∀ key a b, SameOutcome a b → (a.get key).truthy = (b.get key).truthy :=
    fun key a b hab => by rw [hab key]
  have hfalsy : ∀ key a b, SameOutcome a b → (!(a.get key).truthy) = !(b.get key).truthy :=
    fun key a b hab => by rw [hab key]
  have hdefined : ∀ key a b, SameOutcome a b →
      (!(a.get key).isUndefined) = !(b.get key).isUndefined :=
    fun key a b hab => by rw [hab key]
  have hattributable := same_filter (htruthy "attributable") hall
  have hest := same_filter (hdefined "estimatedLatencyMs") hall
  simp only [accountingFor, hall.length_eq, (same_filter (htruthy "ok") hall).length_eq,
    (same_filter (hfalsy "ok") hall).length_eq, hattributable.length_eq,
    (same_filter (htruthy "ok") hattributable).length_eq, hest.length_eq,
    same_map (hget "estimatedCostUsd") hall, same_map (hget "actualCostUsd") hall,
    same_map (hget "estimatedLatencyMs") hest, same_map (hget "actualLatencyMs") hall,
    same_map (hget "recordedAt") hall]

theorem accounting_same (roundings : Roundings) (registered : List String)
    (h : List.Forall₂ SameOutcome l l') :
    accounting roundings registered l = accounting roundings registered l' := by
  have hids := same_filterMap (f := fun o => (o.get "modelId").string)
    (fun a b hab => by rw [hab "modelId"]) h
  rw [accounting, accounting, hids]
  exact List.map_congr_left fun modelId _ => accountingFor_same roundings h modelId

variable {deps : RouterDeps}

theorem replay_same {o o' : JsValue} (h : SameOutcome o o') (t : ModelReliabilityTracker) :
    deps.replay t o = deps.replay t o' := by
  simp only [RouterDeps.replay, RouterDeps.recordedAtOf, h "modelId", h "taskClass",
    h "recordedAt", h "attributable", h "terminationReason", h "ok", h "error"]

theorem foldl_replay_same (h : List.Forall₂ SameOutcome l l') (t : ModelReliabilityTracker) :
    l.foldl deps.replay t = l'.foldl deps.replay t := by
  induction h generalizing t with
  | nil => rfl
  | cons hab _ ih => rw [List.foldl_cons, List.foldl_cons, replay_same hab, ih]

end Same

/-! Replaying the records feeds the circuits as the calls did. -/

section Replay

variable {deps : RouterDeps} (hparse : ∀ t, deps.parseDate (isoText t) = some t)

include hparse

theorem replay_recordOf {t t' : ModelReliabilityTracker} (h : t.Like t') (numbered : Call × ℕ) :
    (deps.replay t (deps.recordOf numbered).toJs).Like
      (deps.feedback t' numbered.1.input numbered.1.now).1 := by
  obtain ⟨⟨input, now⟩, n⟩ := numbered
  have hmodel : (deps.recordOf (⟨input, now⟩, n)).toJs.get "modelId" =
      .str input.decision.modelId := rfl
  have htask : (deps.recordOf (⟨input, now⟩, n)).toJs.get "taskClass" =
      .str (input.taskClass.getD deps.taskClass) := rfl
  have hrecorded : (deps.recordOf (⟨input, now⟩, n)).toJs.get "recordedAt" =
      .str (isoText now) := rfl
  have hattributable : (deps.recordOf (⟨input, now⟩, n)).toJs.get "attributable" =
      .bool (deps.attributable ⟨input, now⟩) := rfl
  have hreason : (deps.recordOf (⟨input, now⟩, n)).toJs.get "terminationReason" =
      optional input.terminationReason := rfl
  have hok : (deps.recordOf (⟨input, now⟩, n)).toJs.get "ok" = .bool input.ok := rfl
  have hnow : deps.parseDate (RouterDeps.recordedAtOf (deps.recordOf (⟨input, now⟩, n)).toJs) =
      some now := by
    rw [RouterDeps.recordedAtOf, hrecorded]
    exact hparse now
  simp only [RouterDeps.replay, hmodel, htask, hattributable, hreason, hok, hnow,
    RouterDeps.attributable, RouterDeps.feedback, template]
  have hfeed : ∀ {success : Bool} {reason reason' : Option String}, (t.record deps.options
      ⟨input.decision.modelId, input.taskClass.getD deps.taskClass, success, reason, some now⟩).Like
        (t'.record deps.options
          ⟨input.decision.modelId, input.taskClass.getD deps.taskClass, success, reason', some now⟩) :=
    h.record rfl rfl rfl rfl
  cases hfilter : input.terminationReason.filter (· ≠ "") with
  | some reason =>
    obtain ⟨hsome, hne⟩ := Option.filter_eq_some_iff.mp hfilter
    have htruthy : (optional input.terminationReason).truthy = true := by
      rw [hsome]
      exact hne
    simp only [htruthy, if_true]
    rw [hsome]
    simp only [optional, Option.map_some, Option.getD_some, JsValue.string,
      ModelReliabilityTracker.recordTermination]
    rcases Option.eq_none_or_eq_some (classifyTerminationForReliability reason) with
      hverdict | ⟨success, hverdict⟩
    · simp only [hverdict]
      exact h
    · simp only [hverdict]
      exact hfeed
  | none =>
    have hfalsy : (optional input.terminationReason).truthy = false := by
      cases hreason : input.terminationReason with
      | none => rfl
      | some reason =>
        rw [hreason, Option.filter_eq_none_iff] at hfilter
        have hempty : reason = "" := by simpa using hfilter reason rfl
        rw [hempty]
        rfl
    simp only [hfalsy]
    cases hok' : input.ok with
    | true => exact hfeed
    | false =>
      cases input.modelAttributable with
      | true => exact hfeed
      | false => exact h

theorem replay_recorded (calls : List Call) :
    (((deps.recorded calls).map (·.toJs)).foldl deps.replay .fresh).Like (deps.circuits calls) := by
  induction calls using List.reverseRecOn with
  | nil => exact .fresh
  | append_singleton calls call ih =>
    rw [recorded_concat, List.map_append, List.foldl_append, circuits_concat]
    exact replay_recordOf hparse ih (call, calls.length + 1)

end Replay

/-! The order in which stored outcomes are taken up. -/

section Order

variable {deps : RouterDeps}

def timeKey (o : JsValue) : String × ℕ := (RouterDeps.recordedAtOf o, RouterDeps.seqOf o)

def compareKeys (deps : RouterDeps) (a b : String × ℕ) : Ordering :=
  (deps.localeCompare a.1 b.1).then (compare a.2 b.2)

theorem compareOutcomes_eq :
    deps.compareOutcomes = fun a b => compareKeys deps (timeKey a) (timeKey b) := rfl

theorem isLE_then {o p : Ordering} : (o.then p).isLE ↔ o = .lt ∨ o = .eq ∧ p.isLE := by
  cases o <;> simp

instance transCmp_compareKeys [Std.TransCmp deps.localeCompare] :
    Std.TransCmp (compareKeys deps) where
  eq_swap := by
    intro a b
    have hswap : deps.localeCompare a.1 b.1 = (deps.localeCompare b.1 a.1).swap :=
      Std.OrientedCmp.eq_swap
    have hseq : compare a.2 b.2 = (compare b.2 a.2).swap := Std.OrientedCmp.eq_swap
    rw [compareKeys, compareKeys, hswap, hseq, Ordering.swap_then]
  isLE_trans := by
    intro a b c hab hbc
    rw [compareKeys, isLE_then] at *
    rcases hab with hab | ⟨hab, hab'⟩ <;> rcases hbc with hbc | ⟨hbc, hbc'⟩
    · exact .inl (Std.TransCmp.lt_trans hab hbc)
    · exact .inl (Std.TransCmp.lt_of_lt_of_eq hab hbc)
    · exact .inl (Std.TransCmp.lt_of_eq_of_lt hab hbc)
    · exact .inr ⟨Std.TransCmp.eq_trans hab hbc, Std.TransCmp.isLE_trans hab' hbc'⟩

theorem timeKey_same {a b : JsValue} (h : SameOutcome a b) : timeKey a = timeKey b := by
  simp only [timeKey, RouterDeps.recordedAtOf, RouterDeps.seqOf, h "recordedAt", h "seq"]

theorem timeKey_toJs (r : RouteOutcomeRecord) : timeKey r.toJs = (r.recordedAt, r.seq) := by
  have hseq : r.toJs.get "seq" = .nat r.seq := rfl
  have hrecorded : r.toJs.get "recordedAt" = .str r.recordedAt := rfl
  simp [timeKey, RouterDeps.recordedAtOf, RouterDeps.seqOf, hseq, hrecorded, JsValue.nat,
    finiteNumber, JsValue.string]

theorem seqOf_reload (store : RevivingStore) (parseDate : String → JsDate) (r : RouteOutcomeRecord) :
    RouterDeps.seqOf (store.reload parseDate r.toJs) = r.seq := by
  have hseq : r.toJs.get "seq" = .nat r.seq := rfl
  have hdef : (JsValue.nat r.seq).isUndefined = false := rfl
  rw [RouterDeps.seqOf, get_reload_record, hseq, hdef, if_neg (by decide), reload_nat]
  simp [JsValue.nat, finiteNumber]

end Order

/-! Restarts. -/

/-- A router shows what another one showed. -/
structure Restarted (deps : RouterDeps) (roundings : Roundings) (old new : Router) : Prop where
  outcomes : List.Forall₂ SameOutcome new.outcomesList old.outcomesList
  accounting : ∀ registered, Routing.accounting roundings registered new.outcomesList =
    Routing.accounting roundings registered old.outcomesList
  circuits : ∀ modelId taskClass now,
    new.reliability.status deps.options modelId taskClass now =
      old.reliability.status deps.options modelId taskClass now
  /-- The number of the next outcome is above all recorded ones. -/
  seqs : ∀ o ∈ old.outcomesList, RouterDeps.seqOf o < new.seq + 1

/-- After the calls a new router over the store shows what the old one does, in whatever order the
store lists its entries. -/
def SurvivesRestart (deps : RouterDeps) (store : RevivingStore) (roundings : Roundings)
    (calls : List Call) : Prop :=
  ∀ listed : Stored, listed.Perm (deps.run calls).2 → Restarted deps roundings (deps.run calls).1
    (deps.hydrate .fresh (listed.map fun kv => store.reload deps.parseDate kv.2))

/-- The clock never went back, as far as the order of texts tells. -/
def Forwards (deps : RouterDeps) (calls : List Call) : Prop :=
  calls.Pairwise fun a b => deps.localeCompare (isoText a.now) (isoText b.now) ≠ .gt

variable {calls : List Call}

theorem mem_recorded (deps : RouterDeps) {call : Call} (h : call ∈ calls) :
    ∃ n, deps.recordOf (call, n) ∈ deps.recorded calls := by
  rw [← List.zipIdx_map_fst 1 calls] at h
  obtain ⟨numbered, hnumbered, rfl⟩ := List.mem_map.mp h
  exact ⟨numbered.2, List.mem_map_of_mem hnumbered⟩

theorem forwards_iff {deps : RouterDeps} : Forwards deps calls ↔
    (deps.recorded calls).Pairwise fun a b => deps.localeCompare a.recordedAt b.recordedAt ≠ .gt := by
  rw [RouterDeps.recorded, List.pairwise_map]
  conv_lhs => rw [Forwards, ← List.zipIdx_map_fst 1 calls, List.pairwise_map]
  rfl

theorem recorded_increasing {deps : RouterDeps} :
    (deps.recorded calls).Pairwise fun a b => a.seq < b.seq := by
  have hseqs : ((deps.recorded calls).map (·.seq)).Pairwise (· < ·) := by
    rw [recorded_seqs]
    exact List.pairwise_lt_range'
  exact List.pairwise_map.mp hseqs

section Restart

variable {deps : RouterDeps} {store : RevivingStore} {calls : List Call}
  (hparse : ∀ t, deps.parseDate (isoText t) = some t)

include hparse

theorem sameOutcome_iff (numbered : Call × ℕ) :
    SameOutcome (store.reload deps.parseDate (deps.recordOf numbered).toJs)
      (deps.recordOf numbered).toJs ↔ deps.Kept numbered.1 :=
  (sameOutcome_reload_iff store hparse _).trans (keeps_fields_iff deps numbered)

variable (store) in
theorem kept_iff : (∀ call ∈ calls, deps.Kept call) ↔ ∀ r ∈ deps.recorded calls,
    SameOutcome (store.reload deps.parseDate r.toJs) r.toJs := by
  constructor
  · intro h r hr
    obtain ⟨numbered, hnumbered, rfl⟩ := List.mem_map.mp hr
    have hcall : numbered.1 ∈ calls := by
      rw [← List.zipIdx_map_fst 1 calls]
      exact List.mem_map_of_mem hnumbered
    exact (sameOutcome_iff hparse numbered).mpr (h _ hcall)
  · intro h call hcall
    obtain ⟨n, hn⟩ := mem_recorded deps hcall
    exact (sameOutcome_iff hparse (call, n)).mp (h _ hn)

omit hparse in
theorem isOutcome_same {a b : JsValue} (h : SameOutcome a b) (ha : a.truthy = true)
    (hb : b.truthy = true) : RouterDeps.isOutcome a = RouterDeps.isOutcome b := by
  simp only [RouterDeps.isOutcome, ha, hb, h "modelId", h "recordedAt"]

omit hparse in
theorem truthy_reload (r : RouteOutcomeRecord) :
    (store.reload deps.parseDate r.toJs).truthy = true := by
  rw [RouteOutcomeRecord.toJs, reload_obj store deps.parseDate (fields_safe r)]
  rfl

/-- What the store gives back of the records. -/
def givenBack (deps : RouterDeps) (store : RevivingStore) (calls : List Call) : List JsValue :=
  (deps.recorded calls).map fun r => store.reload deps.parseDate r.toJs

theorem givenBack_same (hkept : ∀ call ∈ calls, deps.Kept call) :
    List.Forall₂ SameOutcome (givenBack deps store calls)
      ((deps.recorded calls).map (·.toJs)) := by
  rw [givenBack, List.forall₂_map_left_iff, List.forall₂_map_right_iff, List.forall₂_same]
  exact (kept_iff store hparse).mp hkept

omit hparse in
theorem inj_of_seq {r r' : RouteOutcomeRecord} (hr : r ∈ deps.recorded calls)
    (hr' : r' ∈ deps.recorded calls) (h : r.seq = r'.seq) : r = r' :=
  List.inj_on_of_nodup_map recorded_nodup hr hr' h

omit hparse in
theorem givenBack_separates {a b : JsValue} (ha : a ∈ givenBack deps store calls)
    (hb : b ∈ givenBack deps store calls)
    (h : compareKeys deps (timeKey a) (timeKey b) = .eq) : timeKey a = timeKey b := by
  obtain ⟨r, hr, rfl⟩ := List.mem_map.mp ha
  obtain ⟨r', hr', rfl⟩ := List.mem_map.mp hb
  have hseq := (Ordering.then_eq_eq.mp h).2
  simp only [timeKey, seqOf_reload] at hseq
  rw [inj_of_seq hr hr' (Nat.compare_eq_eq.mp hseq)]

/-- Records that come back as they were are taken up in the order in which they were made. -/
theorem takenUp_eq [Std.TransCmp deps.localeCompare] (hkept : ∀ call ∈ calls, deps.Kept call)
    (hforwards : Forwards deps calls) {values : List JsValue}
    (hvalues : values.Perm (givenBack deps store calls)) :
    sortBy deps.compareOutcomes (values.filter RouterDeps.isOutcome) =
      givenBack deps store calls := by
  have hsame : ∀ r ∈ deps.recorded calls,
      SameOutcome (store.reload deps.parseDate r.toJs) r.toJs := (kept_iff store hparse).mp hkept
  have hfilter : values.filter RouterDeps.isOutcome = values := by
    refine List.filter_eq_self.mpr fun o ho => ?_
    obtain ⟨r, hr, rfl⟩ := List.mem_map.mp (hvalues.mem_iff.mp ho)
    rw [isOutcome_same (hsame r hr) (truthy_reload r) rfl]
    rfl
  have hkeys : (givenBack deps store calls).map timeKey =
      (deps.recorded calls).map fun r => (r.recordedAt, r.seq) := by
    rw [givenBack, List.map_map]
    exact List.map_congr_left fun r hr => (timeKey_same (hsame r hr)).trans (timeKey_toJs r)
  have hnodup : ((givenBack deps store calls).map timeKey).Nodup := by
    have hseqs : ((deps.recorded calls).map (·.seq)).Nodup := recorded_nodup
    rw [hkeys]
    exact List.Nodup.of_map Prod.snd (by rwa [List.map_map])
  have hsorted : (givenBack deps store calls).Pairwise fun a b =>
      (compareKeys deps (timeKey a) (timeKey b)).isLE := by
    have hpairs : ((givenBack deps store calls).map timeKey).Pairwise fun a b =>
        (compareKeys deps a b).isLE := by
      rw [hkeys, List.pairwise_map]
      refine ((forwards_iff.mp hforwards).and recorded_increasing).imp fun {a b} hab => ?_
      rw [compareKeys, isLE_then]
      cases hcmp : deps.localeCompare a.recordedAt b.recordedAt with
      | lt => exact .inl rfl
      | eq => exact .inr ⟨rfl, by rw [Nat.compare_eq_lt.mpr hab.2]; rfl⟩
      | gt => exact absurd hcmp hab.1
    exact List.pairwise_map.mp hpairs
  rw [hfilter, compareOutcomes_eq, sortBy_key_perm hvalues
    ((hvalues.map timeKey).nodup_iff.mpr hnodup) fun a ha b hb => givenBack_separates
      (hvalues.mem_iff.mp ha) (hvalues.mem_iff.mp hb)]
  exact List.Pairwise.insertionSort_eq (hsorted.imp fun hle => Ordering.isLE_iff_ne_gt.mp hle)

omit hparse in
theorem le_foldl_max {l : List ℕ} {n start : ℕ} (h : n ∈ l) : n ≤ l.foldl max start := by
  have hstart : ∀ (l : List ℕ) start, start ≤ l.foldl max start := by
    intro l
    induction l with
    | nil => exact fun start => le_rfl
    | cons m rest ih => exact fun start => (le_max_left start m).trans (ih _)
  induction l generalizing start with
  | nil => cases h
  | cons m rest ih =>
    rcases List.mem_cons.mp h with rfl | hrest
    · exact (le_max_right start n).trans (hstart rest _)
    · exact ih hrest

theorem survives_of_kept [Std.TransCmp deps.localeCompare] (roundings : Roundings)
    (hkept : ∀ call ∈ calls, deps.Kept call) (hforwards : Forwards deps calls) :
    SurvivesRestart deps store roundings calls := by
  intro listed hlisted
  rw [run_eq] at hlisted ⊢
  have hvalues : (listed.map fun kv => store.reload deps.parseDate kv.2).Perm
      (givenBack deps store calls) := by
    have hperm := hlisted.map fun kv => store.reload deps.parseDate kv.2
    rwa [List.map_map] at hperm
  have hsame : List.Forall₂ SameOutcome (givenBack deps store calls) _ :=
    givenBack_same hparse hkept
  rw [RouterDeps.hydrate, takenUp_eq hparse hkept hforwards hvalues]
  simp only [Router.fresh, List.append_nil]
  refine ⟨hsame, fun registered => accounting_same roundings registered hsame, ?_, ?_⟩
  · intro modelId taskClass now
    rw [foldl_replay_same hsame]
    exact (replay_recorded hparse calls).status_eq modelId taskClass now
  · intro o ho
    obtain ⟨r, hr, rfl⟩ := List.mem_map.mp ho
    have hseq : RouterDeps.seqOf r.toJs = r.seq := (Prod.ext_iff.mp (timeKey_toJs r)).2
    have hmem : r.seq ∈ (givenBack deps store calls).map RouterDeps.seqOf := by
      rw [givenBack, List.map_map]
      exact List.mem_map.mpr ⟨r, hr, seqOf_reload store deps.parseDate r⟩
    rw [hseq]
    exact Nat.lt_succ_of_le (le_foldl_max hmem)

theorem kept_of_survives [Std.TransCmp deps.localeCompare] {roundings : Roundings}
    (h : SurvivesRestart deps store roundings calls) :
    (∀ call ∈ calls, deps.Kept call) ∧ Forwards deps calls := by
  have hsame := (h _ (.refl _)).outcomes
  rw [run_eq, RouterDeps.hydrate] at hsame
  simp only [Router.fresh, List.append_nil, List.map_map] at hsame
  have htaken : ∀ o ∈ sortBy deps.compareOutcomes ((givenBack deps store calls).filter
      RouterDeps.isOutcome), o ∈ givenBack deps store calls :=
    fun o ho => List.mem_of_mem_filter (mem_sortBy.mp ho)
  have hsorted : (sortBy deps.compareOutcomes ((givenBack deps store calls).filter
      RouterDeps.isOutcome)).Pairwise fun a b => (compareKeys deps (timeKey a) (timeKey b)).isLE :=
    sortBy_pairwise timeKey _
  change List.Forall₂ SameOutcome (sortBy deps.compareOutcomes ((givenBack deps store calls).filter
    RouterDeps.isOutcome)) _ at hsame
  generalize sortBy deps.compareOutcomes ((givenBack deps store calls).filter
    RouterDeps.isOutcome) = taken at hsame htaken hsorted
  constructor
  · -- the outcome in the place of a record is that record's own
    refine (kept_iff store hparse).mpr fun r hr => ?_
    obtain ⟨o, ho, hor⟩ := exists_of_forall₂ hsame.flip (List.mem_map_of_mem hr)
    obtain ⟨r', hr', rfl⟩ := List.mem_map.mp (htaken o ho)
    have hseq : r'.seq = r.seq := by
      rw [← seqOf_reload store deps.parseDate r', RouterDeps.seqOf, hor "seq"]
      exact (Prod.ext_iff.mp (timeKey_toJs r)).2
    rwa [inj_of_seq hr' hr hseq] at hor
  · have hkeys : taken.map timeKey =
        (deps.recorded calls).map fun r => (r.recordedAt, r.seq) := by
      rw [same_map (fun _ _ => timeKey_same) hsame, List.map_map]
      exact List.map_congr_left fun r _ => timeKey_toJs r
    have hpairs : (taken.map timeKey).Pairwise fun a b => (compareKeys deps a b).isLE :=
      List.pairwise_map.mpr hsorted
    rw [hkeys, List.pairwise_map] at hpairs
    refine forwards_iff.mpr (hpairs.imp fun {a b} hab hgt => ?_)
    rw [compareKeys, isLE_then, hgt] at hab
    rcases hab with hlt | ⟨heq, -⟩
    · cases hlt
    · cases heq

/-- A router survives a restart exactly if every record comes back as it was and the clock never
went back. -/
theorem survives_restart_iff [Std.TransCmp deps.localeCompare] (store : RevivingStore)
    (roundings : Roundings) (calls : List Call) : SurvivesRestart deps store roundings calls ↔
      (∀ call ∈ calls, deps.Kept call) ∧ Forwards deps calls :=
  ⟨kept_of_survives hparse, fun h => survives_of_kept hparse roundings h.1 h.2⟩

end Restart

/-- In the years that have four digits no record comes back as it was. -/
theorem not_kept {deps : RouterDeps} {call : Call} (h₀ : 0 ≤ (civil (call.now.1 / 86400000)).1)
    (h₁ : (civil (call.now.1 / 86400000)).1 ≤ 9999) : ¬ deps.Kept call := by
  intro h
  have hiso := isIso_isoText h₀ h₁
  rw [h.texts (isoText call.now) (by simp [RouterDeps.texts])] at hiso
  cases hiso

/-! A router with the default circuits, whose outcomes are rounded to nothing. -/

noncomputable def plainDeps : RouterDeps where
  taskClass := "goal-studio"
  options := {}
  localeCompare := compareStrings
  parseDate := Checkpoints.parseIso

def plainRoundings : Roundings where
  share _ _ := .finite 1
  total _ := .finite 0
  average _ := .finite 0

/-- A local model answered. -/
def plainInput : RouteOutcomeInput where
  decision := ⟨"a", some "a@ollama", "ollama", some "local", false, some (.finite 0), none⟩
  ok := true
  latencyMs := some (.finite 1500)
  actualCostUsd := none
  error := none
  terminationReason := none
  modelAttributable := false
  taskClass := none
  runId := some "run1"
  targetId := some "T1"
  attemptId := some "att1"

theorem first_valid : -maxTimeMs ≤ 253402300800000 ∧ 253402300800000 ≤ maxTimeMs := by decide

theorem second_valid : -maxTimeMs ≤ 253402300801000 ∧ 253402300801000 ≤ maxTimeMs := by decide

/-- It is the year 10000; the second call comes a second later. -/
def lateCalls : List Call :=
  [⟨plainInput, ⟨253402300800000, first_valid⟩⟩, ⟨plainInput, ⟨253402300801000, second_valid⟩⟩]

theorem late_outcome_survives :
    SurvivesRestart plainDeps .jsonFile plainRoundings lateCalls := by
  have : Std.TransCmp plainDeps.localeCompare := inferInstanceAs (Std.TransCmp compareStrings)
  have hplain : lateCalls.all (fun call => ["a", "ollama", "goal-studio", isoText call.now,
      "a@ollama", "local", "run1", "T1", "att1"].all fun s => !isIsoDateString s) = true := by
    decide
  have hinput : ∀ call ∈ lateCalls, call.input = plainInput := by simp [lateCalls]
  refine (survives_restart_iff Checkpoints.parseIso_isoText .jsonFile plainRoundings _).mpr
    ⟨fun call hcall => ⟨fun s hs => ?_, fun n hn => ?_⟩, ?_⟩
  · have hiso := List.all_eq_true.mp hplain call hcall
    rw [RouterDeps.texts, hinput call hcall] at hs
    simpa using List.all_eq_true.mp hiso s hs
  · rw [RouterDeps.numbers, hinput call hcall] at hn
    simp only [plainInput, Option.getD_some, wholeMs, Option.toList, List.append_nil, List.mem_cons,
      List.not_mem_nil, or_false] at hn
    rcases hn with rfl | rfl <;> exact ⟨_, rfl⟩
  · have hforwards : compareStrings (isoText ⟨253402300800000, first_valid⟩)
        (isoText ⟨253402300801000, second_valid⟩) ≠ .gt := by decide
    exact List.pairwise_pair.mpr hforwards

/-- It is 2026. -/
theorem outcome_lost : ¬ SurvivesRestart plainDeps .jsonFile plainRoundings
    [⟨plainInput, ⟨1772366400000, by decide⟩⟩] := by
  have : Std.TransCmp plainDeps.localeCompare := inferInstanceAs (Std.TransCmp compareStrings)
  intro h
  exact not_kept (by decide) (by decide)
    ((kept_of_survives Checkpoints.parseIso_isoText h).1 _ List.mem_cons_self)

end Wazir.Goals.Routing
