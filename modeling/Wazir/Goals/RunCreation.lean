import Wazir.Goals.LedgerSystem
import Wazir.Goals.TopologicalOrder

/-! Which valid graphs can be started. The validator keeps target ids in a `Map`, the ledger in a
plain object, where the names of inherited properties read as taken; and the validator bounds the
run time by a safe integer, the ledger adds it to a date. -/

namespace Wazir.Goals

open Wazir.Async GoalLedgerStore

/-- A new run's ledger matches its graph. -/
structure MatchesGraph (graph : GoalGraphRevisionRecord) (ledger : GoalRunLedger) : Prop where
  entries : ledger.targets.keys.Perm (graph.definition.targets.map GoalTarget.id)
  statuses : ∀ target ∈ graph.definition.targets, ledger.statusOf target.id =
    some (if target.dependsOn = [] then .eligible else .queued)
  deadline : ledger.resource.startedAt.1 < ledger.resource.deadlineAt.1 ∧
    ledger.resource.deadlineAt.1 = ledger.resource.startedAt.1 +
      graph.definition.resourceLimits.maxRunMinutes * 60000

def Starts (graph : GoalGraphRevisionRecord) (out : Except Thrown GoalRunLedger) : Prop :=
  ∃ ledger, out = .ok ledger ∧ MatchesGraph graph ledger

/-- The store, while it works and the clock shows `t`. -/
def quietLedger (t : Timestamp) (uuid : String) (op : LedgerOp) (s : LedgerShared) :
    LedgerRes op × LedgerShared :=
  ledgerExec op ⟨some t, uuid, none⟩ s

/-! What the ledger makes of the targets. -/

section Ledger

variable {graph : GoalGraphRevisionRecord} {stampedAt : Timestamp}

theorem initialTargets_matches {ts : List GoalTarget} {table : Table TargetId TargetLedgerEntry}
    (hnodup : (ts.map GoalTarget.id).Nodup) (hnew : ∀ t ∈ ts, table.lookup t.id = none)
    (hplain : ∀ t ∈ ts, t.id ∉ inheritedKeys) :
    ∃ table', initialTargets graph stampedAt table ts = .ok table' ∧
      table'.keys.Perm (table.keys ++ ts.map GoalTarget.id) ∧
      (∀ k ∉ ts.map GoalTarget.id, table'.lookup k = table.lookup k) ∧
      ∀ t ∈ ts, (table'.lookup t.id).map TargetLedgerEntry.status =
        some (if t.dependsOn = [] then .eligible else .queued) := by
  induction ts generalizing table with
  | nil => exact ⟨table, rfl, by simp, fun _ _ => rfl, by simp⟩
  | cons t rest ih =>
    obtain ⟨hfirst, hrest⟩ := List.nodup_cons.mp hnodup
    have hid := hnew t List.mem_cons_self
    have hne : ∀ t' ∈ rest, t'.id ≠ t.id :=
      fun t' ht' heq => hfirst (List.mem_map.mpr ⟨t', ht', heq⟩)
    obtain ⟨table', hok, hkeys, hother, hstatus⟩ := @ih
      (table.insert t.id ⟨t.id, if t.dependsOn = [] then .eligible else .queued, 0, 0, none,
        none, [], [], stampedAt⟩) hrest
      (fun t' ht' => by
        rw [AList.lookup_insert_ne (hne t' ht')]
        exact hnew t' (List.mem_cons_of_mem _ ht'))
      (fun t' ht' => hplain t' (List.mem_cons_of_mem _ ht'))
    refine ⟨table', ?_, ?_, ?_, ?_⟩
    · rw [initialTargets, if_neg (by simp [hid, hplain t List.mem_cons_self])]
      exact hok
    · have habsent : t.id ∉ table := AList.lookup_eq_none.mp hid
      rw [AList.keys_insert, List.erase_of_not_mem habsent] at hkeys
      refine hkeys.trans ?_
      simp only [List.map_cons, List.cons_append]
      exact List.perm_middle.symm
    · intro k hk
      rw [List.map_cons, List.mem_cons, not_or] at hk
      rw [hother k hk.2, AList.lookup_insert_ne hk.1]
    · intro t' ht'
      rcases List.mem_cons.mp ht' with rfl | ht'
      · rw [hother _ hfirst, AList.lookup_insert]
        rfl
      · exact hstatus t' ht'

theorem initialTargets_plain {ts : List GoalTarget} {table table' : Table TargetId TargetLedgerEntry}
    (h : initialTargets graph stampedAt table ts = .ok table') :
    ∀ t ∈ ts, t.id ∉ inheritedKeys := by
  induction ts generalizing table with
  | nil => simp
  | cons t rest ih =>
    unfold initialTargets at h
    split at h
    · simp at h
    · rename_i hfree
      exact List.forall_mem_cons.mpr ⟨fun hin => hfree (.inr hin), ih h⟩

end Ledger

theorem initialLedger_starts {graph : GoalGraphRevisionRecord} {createdBy : String}
    {runId : GoalRunId} {t : Timestamp}
    (hnodup : (graph.definition.targets.map GoalTarget.id).Nodup)
    (hminutes : 1 ≤ graph.definition.resourceLimits.maxRunMinutes) :
    Starts graph (initialLedger graph createdBy runId (some t)) ↔
      (∀ target ∈ graph.definition.targets, target.id ∉ inheritedKeys) ∧
        t.1 + graph.definition.resourceLimits.maxRunMinutes * 60000 ≤ maxTimeMs := by
  set minutes := graph.definition.resourceLimits.maxRunMinutes
  constructor
  · rintro ⟨ledger, hok, -⟩
    simp only [initialLedger, except_bind_eq_ok] at hok
    obtain ⟨stampedAt, -, targets, htargets, deadlineAt, hdeadline, -⟩ := hok
    refine ⟨initialTargets_plain htargets, ?_⟩
    rw [JsDate.toISOString_eq_ok] at hdeadline
    simp only [JsDate.addMs, Option.bind_some, JsDate.ofMs] at hdeadline
    split_ifs at hdeadline with hrange
    exact hrange.2
  · rintro ⟨hplain, hrange⟩
    obtain ⟨targets, htargets, hkeys, -, hstatus⟩ :=
      @initialTargets_matches graph t _ ∅ hnodup (by simp) hplain
    have hdate : JsDate.addMs (some t) ((minutes : ℤ) * 60000) =
        some ⟨t.1 + minutes * 60000, by have := t.2.1; omega, hrange⟩ := by
      simp only [JsDate.addMs, Option.bind_some, JsDate.ofMs]
      exact dif_pos _
    refine ⟨_, by
      simp only [initialLedger, except_bind_eq_ok]
      exact ⟨t, rfl, targets, htargets, _, by rw [JsDate.toISOString_eq_ok]; exact hdate, rfl⟩, ?_⟩
    refine ⟨by simpa using hkeys, hstatus, ?_, rfl⟩
    change t.1 < t.1 + (minutes : ℤ) * 60000
    omega

/-- `createRun` on its own. -/
theorem createRun_alone {graph : GoalGraphRevisionRecord} {createdBy : String}
    {runId? : Option GoalRunId} {t : Timestamp} {uuid : String} {s : LedgerShared}
    (hby : createdBy ≠ "") (hid : validRunId (runId?.getD ("run-" ++ uuid)) = true)
    (hfresh : s.runs.lookup (runId?.getD ("run-" ++ uuid)) = none) :
    ((createRun graph createdBy runId?).alone (quietLedger t uuid) s).1 =
      initialLedger graph createdBy (runId?.getD ("run-" ++ uuid)) (some t) := by
  set runId := runId?.getD ("run-" ++ uuid) with hrun
  have hname : (createRun graph createdBy runId?).alone (quietLedger t uuid) s =
      ((Prog.call .clock .ret : LedgerProg JsDate).bind fun now =>
        (Prog.resume (initialLedger graph createdBy runId now) : LedgerProg GoalRunLedger).bind
          fun ledger => (update runId (.create ledger)).bind fun _ => .ret ledger).alone
        (quietLedger t uuid) s := by
    unfold createRun
    rw [if_neg hby]
    cases runId? with
    | none =>
      simp only [Option.getD_none] at hrun
      simp [runIdOr, Prog.alone, quietLedger, ledgerExec, ← hrun, hid]
    | some id =>
      simp only [Option.getD_some] at hrun
      simp [runIdOr, ← hrun, hid]
  have hwrite : ∀ ledger, (quietLedger t uuid (.updateRun runId (.create ledger)) s).1 =
      .ok (some ⟨ledgerEnvelopeVersion, ledger, none, 0, 0, none⟩, none) := by
    intro ledger
    simp [quietLedger, ledgerExec, guarded, RunUpdate.apply, createUpdate, hfresh, Except.map]
  rw [hname]
  change (((Prog.resume (initialLedger graph createdBy runId (some t)) :
    LedgerProg GoalRunLedger).bind _).alone (quietLedger t uuid) s).1 = _
  cases initialLedger graph createdBy runId (some t) with
  | error x => rfl
  | ok ledger =>
    simp only [Prog.resume_ok, Prog.bind_ret, update, Prog.bind_call, Prog.alone, hwrite]

/-- A valid graph can be started exactly where no target has the name of an inherited property
and the deadline is still a date. -/
theorem createRun_starts_iff (localeCompare : String → String → Ordering) (d : JsValue)
    (graph : GoalGraphRevisionRecord) (createdBy : String) (runId? : Option GoalRunId)
    (t : Timestamp) (uuid : String) (s : LedgerShared)
    (hvalid : validateGoalGraph localeCompare d = []) (hgraph : graph.definition = .ofJs d)
    (hby : createdBy ≠ "") (hid : validRunId (runId?.getD ("run-" ++ uuid)) = true)
    (hfresh : s.runs.lookup (runId?.getD ("run-" ++ uuid)) = none) :
    Starts graph ((createRun graph createdBy runId?).alone (quietLedger t uuid) s).1 ↔
      (∀ target ∈ graph.definition.targets, target.id ∉ inheritedKeys) ∧
        t.1 + graph.definition.resourceLimits.maxRunMinutes * 60000 ≤ maxTimeMs := by
  obtain ⟨hnodup, hminutes⟩ := valid_parts hvalid
  rw [createRun_alone hby hid hfresh]
  exact initialLedger_starts (hgraph ▸ hnodup) (hgraph ▸ hminutes)

/-! Graphs of one target and of two. -/

def graphRecord (targets : List JsValue) : GoalGraphRevisionRecord where
  graphId := "wazir--small-graph"
  projectId := "wazir"
  revision := 1
  definition := .ofJs (graphJs targets)
  digest := ""
  createdAt := ⟨0, epoch_valid⟩
  createdBy := "me"
  parentRevision := none

def constructorTarget : List JsValue := [targetJs "constructor" []]

def emptyLedgers : LedgerShared := ⟨∅, ∅⟩

theorem constructor_unstarted : validateGoalGraph compareStrings (graphJs constructorTarget) = [] ∧
    ¬ Starts (graphRecord constructorTarget) ((createRun (graphRecord constructorTarget) "me"
      (some "run-1")).alone (quietLedger ⟨0, by decide⟩ "") emptyLedgers).1 := by
  have hvalid : validateGoalGraph compareStrings (graphJs constructorTarget) = [] := by decide
  have hid : validRunId "run-1" = true := by decide
  have hplain : ¬ ∀ target ∈ (graphRecord constructorTarget).definition.targets,
      target.id ∉ inheritedKeys := by decide
  have halone : ((createRun (graphRecord constructorTarget) "me" (some "run-1")).alone
      (quietLedger ⟨0, by decide⟩ "") emptyLedgers).1 =
        initialLedger (graphRecord constructorTarget) "me" "run-1" (some ⟨0, by decide⟩) :=
    createRun_alone (by decide) hid rfl
  obtain ⟨hnodup, hminutes⟩ := valid_parts hvalid
  refine ⟨hvalid, fun h => hplain ?_⟩
  rw [halone] at h
  exact ((initialLedger_starts hnodup hminutes).mp h).1

theorem small_starts : Starts (graphRecord twoTargets) ((createRun (graphRecord twoTargets) "me"
    (some "run-1")).alone (quietLedger ⟨0, by decide⟩ "") emptyLedgers).1 := by
  have hvalid : validateGoalGraph compareStrings (graphJs twoTargets) = [] := by decide
  have hid : validRunId "run-1" = true := by decide
  have hplain : ∀ target ∈ (graphRecord twoTargets).definition.targets, target.id ∉ inheritedKeys := by
    decide
  have hminutes : (graphRecord twoTargets).definition.resourceLimits.maxRunMinutes = 60 := by
    decide
  refine (createRun_starts_iff compareStrings (graphJs twoTargets) (graphRecord twoTargets) "me" (some "run-1")
    ⟨0, by decide⟩ "" emptyLedgers hvalid rfl (by decide) hid rfl).mpr ⟨hplain, ?_⟩
  rw [hminutes]
  decide

end Wazir.Goals
