import Wazir.Goals.Eligibility
import Wazir.Goals.RunCreation
import Wazir.Goals.TopologicalOrder

/-! What may continue when targets are blocked (`recovery/continuation.ts`): the dependents of a
blocked target stay queued with a reason, and every other target keeps its eligibility. -/

namespace Wazir.Goals.Continuation

open Topological (mapOf mapOf_of_nodup Needs Orderly orderly_of_valid)
open GoalLedgerStore (inheritedKeys)

/-- Statuses that will never unlock dependents in this run. -/
def deadEndStatuses : List TargetStatus := [.blocked, .stopped]

def selectableStatuses : List TargetStatus := [.queued, .eligible]

def inFlightStatuses : List TargetStatus := [.active, .verifying, .verified, .repairing, .failed]

structure UnreachableTarget where
  targetId : TargetId
  blockedBy : List TargetId
  reason : String
  deriving DecidableEq

structure BlockedTargetContinuation where
  deadEnds : List TargetId
  eligible : List TargetId
  reachable : List TargetId
  unreachable : List UnreachableTarget
  idle : Bool
  deriving DecidableEq

/-- The status of a target, with those in `override` blocked. -/
def statusOf (run : GoalRunLedger) (override : List TargetId) (id : TargetId) : TargetStatus :=
  if id ∈ override then .blocked else run.statusOrQueued id

/-- `Set.prototype.add`. -/
def add (out : List TargetId) (id : TargetId) : List TargetId :=
  if id ∈ out then out else out ++ [id]

abbrev Memo := Table TargetId (List TargetId)

section Search

variable (targets : List GoalTarget) (status : TargetId → TargetStatus)

def byId (id : TargetId) : Option GoalTarget :=
  (mapOf (targets.map fun t => (t.id, t))).lookup id

/-- One dependency in the loop of `deadEndAncestors`; `below` is the recursive call. -/
def addBelow (below : TargetId → Memo → List TargetId × Memo)
    (acc : List TargetId × Memo) (dep : TargetId) : List TargetId × Memo :=
  if (byId targets dep).isNone then (add acc.1 dep, acc.2)
  else if status dep = .completed then acc
  else
    let out := if status dep ∈ deadEndStatuses then add acc.1 dep else acc.1
    let r := below dep acc.2
    (r.1.foldl add out, r.2)

/-- The dead ends that `id` waits for. The set `visiting` holds distinct targets, so `fuel` above
their number is never used up. -/
def deadEndAncestors : ℕ → List TargetId → TargetId → Memo → List TargetId × Memo
  | 0, _, _, memo => ([], memo)
  | fuel + 1, visiting, id, memo =>
    match memo.lookup id with
    | some cached => (cached, memo)
    | none =>
      if id ∈ visiting then ([], memo)
      else
        let deps := ((byId targets id).map GoalTarget.dependsOn).getD []
        let r := deps.foldl
          (addBelow targets status fun dep memo => deadEndAncestors fuel (id :: visiting) dep memo)
          ([], memo)
        (r.1, r.2.insert id r.1)

/-- The lists that the loop over the targets fills. -/
structure Planning where
  deadEnds : List TargetId
  eligible : List GoalTarget
  reachable : List TargetId
  unreachable : List UnreachableTarget
  inFlight : ℕ
  memo : Memo

def unreachableReason (blockers : List TargetId) : String :=
  "unreachable: dependency " ++ String.intercalate ", " blockers ++ " blocked or stopped"

def consider (acc : Planning) (target : GoalTarget) : Planning :=
  let s := status target.id
  if s ∈ deadEndStatuses then { acc with deadEnds := acc.deadEnds ++ [target.id] }
  else if s = .completed then acc
  else
    let r := deadEndAncestors targets status (targets.length + 1) [] target.id acc.memo
    let blockers := sortBy compareStrings r.1
    if blockers.length > 0 then
      { acc with
        unreachable := acc.unreachable ++ [⟨target.id, blockers, unreachableReason blockers⟩]
        memo := r.2 }
    else
      { acc with
        reachable := acc.reachable ++ [target.id]
        inFlight := if s ∈ inFlightStatuses then acc.inFlight + 1 else acc.inFlight
        eligible :=
          if s ∈ selectableStatuses ∧ ∀ dep ∈ target.dependsOn, status dep = .completed
          then acc.eligible ++ [target] else acc.eligible
        memo := r.2 }

def planned : Planning :=
  targets.foldl (consider targets status) ⟨[], [], [], [], 0, ∅⟩

end Search

/-- Higher priority first, then id. -/
def compareEligible (localeCompare : String → String → Ordering) (a b : GoalTarget) : Ordering :=
  (compare b.priority a.priority).then (localeCompare a.id b.id)

def planBlockedTargetContinuation (localeCompare : String → String → Ordering) (run : GoalRunLedger)
    (graph : GoalGraphDefinition) (newlyBlocked : List TargetId) : BlockedTargetContinuation :=
  let r := planned graph.targets (statusOf run newlyBlocked)
  { deadEnds := sortBy compareStrings r.deadEnds
    eligible := (sortBy (compareEligible localeCompare) r.eligible).map GoalTarget.id
    reachable := sortBy compareStrings r.reachable
    unreachable := r.unreachable
    idle := r.eligible.length = 0 && r.inFlight = 0 }

def isUnreachable (blocker : String) : Bool :=
  "unreachable: ".toList.isPrefixOf blocker.toList

def nextBlockers (blockers : List String) (reason : String) : List String :=
  blockers.filter (fun b => !isUnreachable b) ++ [reason]

/-- The reason of `item`, recorded in its entry unless it is there. -/
def recordReason (now : Timestamp) (item : UnreachableTarget) (entry : TargetLedgerEntry)
    (ledger : GoalRunLedger) : GoalRunLedger :=
  let next := nextBlockers entry.blockers item.reason
  if next = entry.blockers then ledger
  else
    let entry := { entry with blockers := next, updatedAt := now }
    { ledger with targets := ledger.targets.insert item.targetId entry }

/-- The ledger after the loop over `plan.unreachable`, and what the loop throws: what a record
inherits under a key has no `blockers`. -/
def recordReasons (now : Timestamp) :
    List UnreachableTarget → GoalRunLedger → GoalRunLedger × Except Thrown Unit
  | [], ledger => (ledger, .ok ())
  | item :: rest, ledger =>
    match ledger.targets.lookup item.targetId with
    | none =>
      if item.targetId ∈ inheritedKeys then
        (ledger, .error (.error "Cannot read properties of undefined (reading 'filter')"))
      else recordReasons now rest ledger
    | some entry => recordReasons now rest (recordReason now item entry ledger)

def applyBlockedContinuation (ledger : GoalRunLedger) (plan : BlockedTargetContinuation)
    (now : Timestamp) : GoalRunLedger × Except Thrown Unit :=
  recordReasons now plan.unreachable ledger

variable {t : GoalTarget} {v : TargetId}

section Search

variable {targets : List GoalTarget} {status : TargetId → TargetStatus}

/-- `v` waits for `w`, which is not completed. -/
def Waits (targets : List GoalTarget) (status : TargetId → TargetStatus) (v w : TargetId) : Prop :=
  Needs targets v w ∧ status w ≠ .completed

/-- Dependencies lead from `v` to the dead end `d`, past no completed target. -/
def Ahead (targets : List GoalTarget) (status : TargetId → TargetStatus) (v d : TargetId) : Prop :=
  status d ∈ deadEndStatuses ∧ Relation.TransGen (Waits targets status) v d

theorem not_completed {s : TargetStatus} (h : s ∈ deadEndStatuses) : s ≠ .completed := by
  rintro rfl
  simp [deadEndStatuses] at h

/-- The dead ends ahead, by the first dependency on the way. -/
theorem ahead_iff {v d : TargetId} : Ahead targets status v d ↔ ∃ w, Waits targets status v w ∧
    (status w ∈ deadEndStatuses ∧ d = w ∨ Ahead targets status w d) := by
  constructor
  · rintro ⟨hdead, hpath⟩
    rcases Relation.TransGen.head'_iff.1 hpath with ⟨w, hw, hrest⟩
    rcases Relation.reflTransGen_iff_eq_or_transGen.1 hrest with rfl | hrest
    · exact ⟨d, hw, .inl ⟨hdead, rfl⟩⟩
    · exact ⟨w, hw, .inr ⟨hdead, hrest⟩⟩
  · rintro ⟨w, hw, ⟨hdead, rfl⟩ | ⟨hdead, hrest⟩⟩
    · exact ⟨hdead, .single hw⟩
    · exact ⟨hdead, .head hw hrest⟩

theorem mem_add {out : List TargetId} {id d : TargetId} : d ∈ add out id ↔ d ∈ out ∨ d = id := by
  unfold add
  split_ifs with h
  · grind
  · simp

theorem mem_foldl_add {out ids : List TargetId} {d : TargetId} :
    d ∈ ids.foldl add out ↔ d ∈ out ∨ d ∈ ids := by
  induction ids generalizing out with
  | nil => simp
  | cons id ids ih => rw [List.foldl_cons, ih, mem_add, List.mem_cons, or_assoc]

/-- What the search has recorded is right. -/
def MemoExact (targets : List GoalTarget) (status : TargetId → TargetStatus) (memo : Memo) : Prop :=
  ∀ v out, memo.lookup v = some out → ∀ d, d ∈ out ↔ Ahead targets status v d

theorem MemoExact.insert {memo : Memo} (h : MemoExact targets status memo) {out : List TargetId}
    (hout : ∀ d, d ∈ out ↔ Ahead targets status v d) :
    MemoExact targets status (memo.insert v out) := by
  intro w out' hw
  by_cases hv : w = v
  · subst hv
    rw [AList.lookup_insert] at hw
    exact Option.some.inj hw ▸ hout
  · rw [AList.lookup_insert_ne hv] at hw
    exact h w out' hw

theorem byId_eq_some (hT : Orderly targets) :
    byId targets v = some t ↔ t ∈ targets ∧ t.id = v := by
  have hnd : ((targets.map fun t => (t.id, t)).map Prod.fst).Nodup := by
    simpa [Function.comp_def] using hT.ids
  rw [byId, mapOf_of_nodup hnd, lookup_eq_some_mem hnd, List.mem_map]
  constructor
  · rintro ⟨t', ht', he⟩
    obtain ⟨rfl, rfl⟩ := Prod.mk.inj he
    exact ⟨ht', rfl⟩
  · rintro ⟨ht, rfl⟩
    exact ⟨t, ht, rfl⟩

theorem byId_isSome (hT : Orderly targets) (hv : v ∈ targets.map GoalTarget.id) :
    (byId targets v).isSome := by
  obtain ⟨t, ht, rfl⟩ := List.mem_map.1 hv
  rw [(byId_eq_some hT).2 ⟨ht, rfl⟩, Option.isSome_some]

theorem mem_deps (hT : Orderly targets) {v w : TargetId} :
    w ∈ ((byId targets v).map GoalTarget.dependsOn).getD [] ↔ Needs targets v w := by
  constructor
  · intro hw
    rcases hv : byId targets v with - | t
    · simp [hv] at hw
    · obtain ⟨ht, hid⟩ := (byId_eq_some hT).1 hv
      exact ⟨t, ht, hid, by simpa [hv] using hw⟩
  · rintro ⟨t, ht, hid, hw⟩
    simpa [(byId_eq_some hT).2 ⟨ht, hid⟩] using hw

/-- The loop over the dependencies, given what the recursive call does for each of them. -/
theorem foldl_addBelow {below : TargetId → Memo → List TargetId × Memo} {deps : List TargetId}
    (hknown : ∀ w ∈ deps, (byId targets w).isSome)
    (hbelow : ∀ w ∈ deps, ∀ memo, MemoExact targets status memo →
      MemoExact targets status (below w memo).2 ∧
        ∀ d, d ∈ (below w memo).1 ↔ Ahead targets status w d)
    (acc : List TargetId × Memo) (hmemo : MemoExact targets status acc.2) :
    MemoExact targets status (deps.foldl (addBelow targets status below) acc).2 ∧
      ∀ d, d ∈ (deps.foldl (addBelow targets status below) acc).1 ↔ d ∈ acc.1 ∨
        ∃ w ∈ deps, status w ≠ .completed ∧
          (status w ∈ deadEndStatuses ∧ d = w ∨ Ahead targets status w d) := by
  induction deps generalizing acc with
  | nil => exact ⟨hmemo, by simp⟩
  | cons w deps ih =>
    have hw : (byId targets w).isNone = false := by
      simpa using hknown w List.mem_cons_self
    obtain ⟨hmemo', hout⟩ := hbelow w List.mem_cons_self acc.2 hmemo
    have hstep : MemoExact targets status (addBelow targets status below acc w).2 ∧
        ∀ d, d ∈ (addBelow targets status below acc w).1 ↔ d ∈ acc.1 ∨ status w ≠ .completed ∧
          (status w ∈ deadEndStatuses ∧ d = w ∨ Ahead targets status w d) := by
      rw [addBelow, hw]
      by_cases hc : status w = .completed
      · simp [hc, hmemo]
      · refine ⟨by simpa [hc] using hmemo', fun d => ?_⟩
        by_cases hdead : status w ∈ deadEndStatuses
        · simp [hc, hdead, mem_foldl_add, mem_add, hout, or_assoc]
        · simp [hc, hdead, mem_foldl_add, hout]
    obtain ⟨hlast, hmem⟩ := ih (fun w hw => hknown w (List.mem_cons_of_mem _ hw))
      (fun w hw => hbelow w (List.mem_cons_of_mem _ hw)) _ hstep.1
    refine ⟨hlast, fun d => ?_⟩
    rw [List.foldl_cons, hmem, hstep.2]
    simp only [List.mem_cons, exists_eq_or_imp, or_assoc]

theorem acyclic (hT : Orderly targets) (v : TargetId) :
    ¬ Relation.TransGen (Needs targets) v v := by
  intro h
  have hswap : Relation.TransGen (fun w v => Needs targets v w) v v :=
    Relation.transGen_swap.2 h
  exact hT.wellFounded.transGen.irrefl.irrefl v hswap

/-- The search finds the dead ends ahead, from any stack of targets on the way to `v`. -/
theorem deadEndAncestors_exact (hT : Orderly targets) (fuel : ℕ) {visiting : List TargetId}
    (hnodup : visiting.Nodup) (hknown : ∀ u ∈ visiting, u ∈ targets.map GoalTarget.id)
    (hv : v ∈ targets.map GoalTarget.id)
    (hway : ∀ u ∈ visiting, Relation.TransGen (Needs targets) u v)
    (hfuel : targets.length < fuel + visiting.length) {memo : Memo}
    (hmemo : MemoExact targets status memo) :
    MemoExact targets status (deadEndAncestors targets status fuel visiting v memo).2 ∧
      ∀ d, d ∈ (deadEndAncestors targets status fuel visiting v memo).1 ↔
        Ahead targets status v d := by
  induction fuel generalizing visiting v memo with
  | zero =>
    have hle := (List.subperm_of_subset hnodup hknown).length_le
    rw [List.length_map] at hle
    omega
  | succ fuel ih =>
    rcases hc : memo.lookup v with - | cached
    · have hfresh : v ∉ visiting := fun hmem => acyclic hT v (hway v hmem)
      -- The stack of the recursive calls.
      have hnodup' : (v :: visiting).Nodup := List.nodup_cons.2 ⟨hfresh, hnodup⟩
      have hknown' : ∀ u ∈ v :: visiting, u ∈ targets.map GoalTarget.id :=
        List.forall_mem_cons.2 ⟨hv, hknown⟩
      have hway' : ∀ w, Needs targets v w →
          ∀ u ∈ v :: visiting, Relation.TransGen (Needs targets) u w := fun w hw =>
        List.forall_mem_cons.2 ⟨.single hw, fun u hu => (hway u hu).tail hw⟩
      have hbelow : ∀ w ∈ ((byId targets v).map GoalTarget.dependsOn).getD [], ∀ memo,
          MemoExact targets status memo →
          MemoExact targets status (deadEndAncestors targets status fuel (v :: visiting) w memo).2 ∧
            ∀ d, d ∈ (deadEndAncestors targets status fuel (v :: visiting) w memo).1 ↔
              Ahead targets status w d := by
        intro w hw memo hmemo
        have hneeds := (mem_deps hT).1 hw
        refine ih hnodup' hknown' (hT.known v w hneeds) (hway' w hneeds) ?_ hmemo
        rw [List.length_cons]
        omega
      have hdeps : ∀ w ∈ ((byId targets v).map GoalTarget.dependsOn).getD [],
          (byId targets w).isSome := fun w hw =>
        byId_isSome hT (hT.known v w ((mem_deps hT).1 hw))
      obtain ⟨hlast, hmem⟩ := foldl_addBelow hdeps hbelow ([], memo) hmemo
      have hout : ∀ d, d ∈ ((((byId targets v).map GoalTarget.dependsOn).getD []).foldl
          (addBelow targets status fun dep memo =>
            deadEndAncestors targets status fuel (v :: visiting) dep memo) ([], memo)).1 ↔
            Ahead targets status v d := by
        intro d
        rw [hmem, ahead_iff]
        simp only [List.not_mem_nil, false_or, mem_deps hT, Waits, and_assoc]
      simp only [deadEndAncestors, hc, if_neg hfresh]
      exact ⟨hlast.insert hout, hout⟩
    · simp only [deadEndAncestors, hc]
      exact ⟨hmemo, hmemo v cached hc⟩

/-- Dependencies lead from `v` to `w` through targets that are not completed. -/
def OpenPath (targets : List GoalTarget) (status : TargetId → TargetStatus) (v w : TargetId) : Prop :=
  status v ≠ .completed ∧ Relation.TransGen (Waits targets status) v w

/-- Some open path from `v` ends at a dead end. -/
def Stuck (targets : List GoalTarget) (status : TargetId → TargetStatus) (v : TargetId) : Prop :=
  ∃ d, status d ∈ deadEndStatuses ∧ OpenPath targets status v d

theorem stuck_iff (hv : status v ≠ .completed) :
    Stuck targets status v ↔ ∃ d, Ahead targets status v d := by
  simp only [Stuck, OpenPath, Ahead, and_iff_right hv]

/-- May be selected, by its own status and those of its dependencies. -/
def selects (status : TargetId → TargetStatus) (t : GoalTarget) : Bool :=
  status t.id ∈ selectableStatuses ∧ ∀ dep ∈ t.dependsOn, status dep = .completed

/-- The lists after the targets `ts`. -/
structure PlannedFor (targets : List GoalTarget) (status : TargetId → TargetStatus)
    (ts : List GoalTarget) (acc : Planning) : Prop where
  memo : MemoExact targets status acc.memo
  partition : (acc.deadEnds ++ acc.reachable ++ acc.unreachable.map UnreachableTarget.targetId).Perm
    ((ts.filter fun t => status t.id ≠ .completed).map GoalTarget.id)
  deadEnds : ∀ v ∈ acc.deadEnds, status v ∈ deadEndStatuses
  reachable : ∀ v ∈ acc.reachable, status v ∉ deadEndStatuses ∧ ¬ Stuck targets status v
  unreachable : ∀ u ∈ acc.unreachable,
    status u.targetId ∉ deadEndStatuses ∧ Stuck targets status u.targetId
  eligible : acc.eligible = ts.filter (selects status)
  blockedBy : ∀ u ∈ acc.unreachable, u.reason = unreachableReason u.blockedBy ∧
    ∀ d, d ∈ u.blockedBy ↔ Ahead targets status u.targetId d

theorem selects_stuck (hT : Orderly targets) (ht : t ∈ targets)
    (h : ∃ d, Ahead targets status t.id d) : selects status t = false := by
  obtain ⟨d, hd⟩ := h
  obtain ⟨w, ⟨⟨t', ht', hid, hw⟩, hopen⟩, -⟩ := ahead_iff.1 hd
  obtain rfl := List.inj_on_of_nodup_map hT.ids ht' ht hid
  simp only [selects, decide_eq_false_iff_not]
  exact fun hs => hopen (hs.2 w hw)

theorem selects_open (h : selects status t = true) :
    status t.id ∉ deadEndStatuses ∧ status t.id ≠ .completed := by
  have hs : status t.id ∈ selectableStatuses := (of_decide_eq_true h).1
  revert hs
  cases status t.id <;> simp [selectableStatuses, deadEndStatuses]

theorem filter_open {ts : List GoalTarget} (h : status t.id ≠ .completed) :
    ((ts ++ [t]).filter fun t => status t.id ≠ .completed).map GoalTarget.id =
      (ts.filter fun t => status t.id ≠ .completed).map GoalTarget.id ++ [t.id] := by
  simp [List.filter_append, h]

theorem PlannedFor.consider (hT : Orderly targets) {ts : List GoalTarget} {acc : Planning}
    (h : PlannedFor targets status ts acc) (ht : t ∈ targets) :
    PlannedFor targets status (ts ++ [t]) (consider targets status acc t) := by
  have hcount := fun v => h.partition.count_eq v
  unfold Continuation.consider
  by_cases hdead : status t.id ∈ deadEndStatuses
  · have hselects : selects status t = false :=
      Bool.eq_false_iff.2 fun hs => (selects_open hs).1 hdead
    simp only [if_pos hdead]
    refine ⟨h.memo, ?_, ?_, h.reachable, h.unreachable, ?_, h.blockedBy⟩
    · rw [filter_open (not_completed hdead)]
      refine List.perm_iff_count.2 fun v => ?_
      simp only [List.count_append] at hcount ⊢
      have := hcount v
      omega
    · intro v hv
      rcases List.mem_append.1 hv with hv | hv
      · exact h.deadEnds v hv
      · exact List.mem_singleton.1 hv ▸ hdead
    · simp [h.eligible, hselects]
  by_cases hdone : status t.id = .completed
  · have hselects : selects status t = false :=
      Bool.eq_false_iff.2 fun hs => (selects_open hs).2 hdone
    simp only [if_neg hdead, if_pos hdone]
    refine ⟨h.memo, ?_, h.deadEnds, h.reachable, h.unreachable, ?_, h.blockedBy⟩
    · simpa [hdone] using h.partition
    · simp [h.eligible, hselects]
  simp only [if_neg hdead, if_neg hdone]
  obtain ⟨hmemo, hmem⟩ := deadEndAncestors_exact hT (targets.length + 1) List.nodup_nil (by simp)
    (List.mem_map_of_mem ht) (by simp) (by simp) h.memo
  set r := deadEndAncestors targets status (targets.length + 1) [] t.id acc.memo
  have hblockers : ∀ d, d ∈ sortBy compareStrings r.1 ↔ Ahead targets status t.id d := fun d => by
    rw [mem_sortBy, hmem]
  have hlength : (sortBy compareStrings r.1).length > 0 ↔ Stuck targets status t.id := by
    rw [stuck_iff hdone, gt_iff_lt, List.length_pos_iff_exists_mem]
    exact exists_congr hblockers
  by_cases hstuck : Stuck targets status t.id
  · have hselects := selects_stuck hT ht ((stuck_iff hdone).1 hstuck)
    simp only [if_pos (hlength.2 hstuck)]
    refine ⟨hmemo, ?_, h.deadEnds, h.reachable, ?_, ?_, ?_⟩
    · rw [filter_open hdone]
      refine List.perm_iff_count.2 fun v => ?_
      simp only [List.count_append, List.map_append, List.map_cons, List.map_nil] at hcount ⊢
      have := hcount v
      omega
    · intro u hu
      rcases List.mem_append.1 hu with hu | hu
      · exact h.unreachable u hu
      · rw [List.mem_singleton.1 hu]
        exact ⟨hdead, hstuck⟩
    · simp [h.eligible, hselects]
    · intro u hu
      rcases List.mem_append.1 hu with hu | hu
      · exact h.blockedBy u hu
      · rw [List.mem_singleton.1 hu]
        exact ⟨rfl, hblockers⟩
  · simp only [if_neg (mt hlength.1 hstuck)]
    refine ⟨hmemo, ?_, h.deadEnds, ?_, h.unreachable, ?_, h.blockedBy⟩
    · rw [filter_open hdone]
      refine List.perm_iff_count.2 fun v => ?_
      simp only [List.count_append] at hcount ⊢
      have := hcount v
      omega
    · intro v hv
      rcases List.mem_append.1 hv with hv | hv
      · exact h.reachable v hv
      · rw [List.mem_singleton.1 hv]
        exact ⟨hdead, hstuck⟩
    · by_cases hs : selects status t = true
      · rw [if_pos (of_decide_eq_true hs), h.eligible]
        simp [hs]
      · rw [if_neg fun hp => hs (decide_eq_true hp), h.eligible]
        simp [hs]

theorem planned_exact (hT : Orderly targets) :
    PlannedFor targets status targets (planned targets status) := by
  have hrun : ∀ ts, (∀ t ∈ ts, t ∈ targets) → PlannedFor targets status ts
      (ts.foldl (Continuation.consider targets status) ⟨[], [], [], [], 0, ∅⟩) := by
    intro ts
    induction ts using List.reverseRecOn with
    | nil =>
      intro _
      refine ⟨fun v out hv => ?_, by simp, by simp, by simp, by simp, rfl, by simp⟩
      simp at hv
    | append_singleton ts t ih =>
      intro hts
      rw [List.foldl_append]
      exact (ih fun t ht => hts t (List.mem_append_left _ ht)).consider hT
        (hts t (by simp))
  exact hrun targets fun t ht => ht

end Search

section Marked

variable {run : GoalRunLedger} {ids : List TargetId}

/-- The entry of a target that has not started. -/
def queuedEntry (id : TargetId) (now : Timestamp) : TargetLedgerEntry where
  targetId := id
  status := .queued
  attempts := 0
  repairs := 0
  lastAttemptId := none
  lastExecutionId := none
  evidenceIds := []
  blockers := []
  updatedAt := now

/-- The ledger with the targets `ids` marked blocked. -/
def markBlocked (run : GoalRunLedger) : List TargetId → GoalRunLedger
  | [] => run
  | id :: ids =>
    let entry := (run.targets.lookup id).getD (queuedEntry id run.updatedAt)
    markBlocked { run with targets := run.targets.insert id { entry with status := .blocked } } ids

theorem statusOf_markBlocked (id : TargetId) :
    (markBlocked run ids).statusOf id = if id ∈ ids then some .blocked else run.statusOf id := by
  induction ids generalizing run with
  | nil => simp [markBlocked]
  | cons first ids ih =>
    rw [markBlocked, ih]
    by_cases hid : id = first
    · subst hid
      simp [GoalRunLedger.statusOf]
    · simp [GoalRunLedger.statusOf, hid]

theorem statusOrQueued_markBlocked (id : TargetId) :
    (markBlocked run ids).statusOrQueued id = statusOf run ids id := by
  rw [GoalRunLedger.statusOrQueued, statusOf_markBlocked, statusOf]
  split_ifs <;> rfl

theorem unlocks_iff {run : GoalRunLedger} {id : TargetId} :
    (run.statusOf id).any (· ∈ unlockingTargetStatuses) = true ↔
      run.statusOrQueued id = .completed := by
  rw [GoalRunLedger.statusOrQueued]
  cases run.statusOf id <;> simp [unlockingTargetStatuses]

theorem selects_markBlocked (t : GoalTarget) :
    ((markBlocked run ids).statusOrQueued t.id ∈ selectable &&
      dependenciesCompleted (markBlocked run ids) t) = selects (statusOf run ids) t := by
  rw [Bool.eq_iff_iff, Bool.and_eq_true, decide_eq_true_iff, selects, decide_eq_true_iff,
    dependenciesCompleted, List.all_eq_true]
  simp only [unlocks_iff, statusOrQueued_markBlocked]
  rfl

end Marked

section Apply

variable {ledger : GoalRunLedger} {items : List UnreachableTarget} {now : Timestamp}

theorem nextBlockers_idem {blockers : List String} {reason : String}
    (h : isUnreachable reason = true) :
    nextBlockers (nextBlockers blockers reason) reason = nextBlockers blockers reason := by
  simp [nextBlockers, h]

theorem recordReason_other {item : UnreachableTarget} {entry : TargetLedgerEntry} {id : TargetId}
    (h : id ≠ item.targetId) :
    (recordReason now item entry ledger).targets.lookup id = ledger.targets.lookup id := by
  rw [recordReason]
  split_ifs
  · rfl
  · exact AList.lookup_insert_ne h

/-- Its reason is in the entry of `item`, at the end. -/
theorem recordReason_settled {item : UnreachableTarget} {entry : TargetLedgerEntry}
    (hreason : isUnreachable item.reason = true)
    (hentry : ledger.targets.lookup item.targetId = some entry) :
    ∃ entry', (recordReason now item entry ledger).targets.lookup item.targetId = some entry' ∧
      nextBlockers entry'.blockers item.reason = entry'.blockers := by
  rw [recordReason]
  split_ifs with hnext
  · exact ⟨entry, hentry, hnext⟩
  · exact ⟨_, AList.lookup_insert _, nextBlockers_idem hreason⟩

theorem recordReasons_other {id : TargetId} (h : id ∉ items.map UnreachableTarget.targetId) :
    (recordReasons now items ledger).1.targets.lookup id = ledger.targets.lookup id := by
  induction items generalizing ledger with
  | nil => rfl
  | cons u rest ih =>
    rw [List.map_cons, List.mem_cons, not_or] at h
    rw [recordReasons]
    split
    · split_ifs
      · rfl
      · exact ih h.2
    · rw [ih h.2, recordReason_other h.1]

/-- A second pass changes nothing more and ends in the same way. -/
theorem recordReasons_twice (hids : (items.map UnreachableTarget.targetId).Nodup)
    (hreasons : ∀ u ∈ items, isUnreachable u.reason = true) (now' : Timestamp) :
    recordReasons now' items (recordReasons now items ledger).1 = recordReasons now items ledger := by
  induction items generalizing ledger with
  | nil => rfl
  | cons u rest ih =>
    obtain ⟨hnew, hrest⟩ := List.nodup_cons.1 hids
    obtain ⟨hreason, hreasons⟩ := List.forall_mem_cons.1 hreasons
    rcases hu : ledger.targets.lookup u.targetId with - | entry
    · by_cases hinherited : u.targetId ∈ inheritedKeys
      · simp only [recordReasons, hu, if_pos hinherited]
      · have hu' : (recordReasons now rest ledger).1.targets.lookup u.targetId = none := by
          rw [recordReasons_other hnew, hu]
        simp only [recordReasons, hu, if_neg hinherited, hu']
        exact ih hrest hreasons
    · -- What the first pass leaves in the entry, the second one finds settled.
      set ledger' := recordReason now u entry ledger with hledger'
      obtain ⟨entry', hentry, hsettled⟩ : ∃ entry', ledger'.targets.lookup u.targetId = some entry' ∧
          nextBlockers entry'.blockers u.reason = entry'.blockers := recordReason_settled hreason hu
      have hu' : (recordReasons now rest ledger').1.targets.lookup u.targetId = some entry' := by
        rw [recordReasons_other hnew, hentry]
      have hkeep : recordReason now' u entry' (recordReasons now rest ledger').1 =
          (recordReasons now rest ledger').1 := if_pos hsettled
      simp only [recordReasons, hu]
      rw [hu']
      show recordReasons now' rest
        (recordReason now' u entry' (recordReasons now rest ledger').1) = _
      rw [hkeep]
      exact ih hrest hreasons

end Apply

section Exact

variable {localeCompare : String → String → Ordering}

theorem isUnreachable_append (rest : String) : isUnreachable ("unreachable: " ++ rest) = true := by
  rw [isUnreachable, List.isPrefixOf_iff_prefix, String.toList_append]
  exact List.prefix_append _ _

theorem append_regroup (a b c d : String) : a ++ b ++ c ++ d = a ++ (b ++ c ++ d) := by
  simp only [String.append_assoc]

theorem isUnreachable_reason (blockers : List TargetId) :
    isUnreachable (unreachableReason blockers) = true := by
  have hsplit : "unreachable: dependency " = "unreachable: " ++ "dependency " := by decide
  have hreason : unreachableReason blockers = "unreachable: " ++
      ("dependency " ++ String.intercalate ", " blockers ++ " blocked or stopped") :=
    (congrArg (fun s => s ++ String.intercalate ", " blockers ++ " blocked or stopped") hsplit).trans
      (append_regroup _ _ _ _)
  exact hreason ▸ isUnreachable_append _

/-- The plan splits the targets exactly as the open paths to dead ends do, selects what
`eligibleTargets` selects, and may be applied again. -/
theorem blocked_planning_exact {d : JsValue} (hvalid : validateGoalGraph localeCompare d = [])
    (run : GoalRunLedger) (newlyBlocked : List TargetId) :
    let graph := GoalGraphDefinition.ofJs d
    let status := statusOf run newlyBlocked
    let plan := planBlockedTargetContinuation localeCompare run graph newlyBlocked
    (plan.deadEnds ++ plan.reachable ++ plan.unreachable.map UnreachableTarget.targetId).Perm
        ((graph.targets.filter fun t => status t.id ≠ .completed).map GoalTarget.id) ∧
      (∀ v ∈ graph.targets.map GoalTarget.id,
        (v ∈ plan.deadEnds ↔ status v ∈ deadEndStatuses) ∧
        (status v ∉ deadEndStatuses → (v ∈ plan.unreachable.map UnreachableTarget.targetId ↔
          ∃ w, status w ∈ deadEndStatuses ∧ OpenPath graph.targets status v w))) ∧
      plan.eligible.Perm (eligibleTargets (markBlocked run newlyBlocked) graph) ∧
      ∀ (ledger : GoalRunLedger) (now now' : Timestamp),
        applyBlockedContinuation (applyBlockedContinuation ledger plan now).1 plan now' =
          applyBlockedContinuation ledger plan now := by
  intro graph status plan
  have hT := orderly_of_valid hvalid
  have hplanned : PlannedFor graph.targets status graph.targets (planned graph.targets status) :=
    planned_exact hT
  have hperm : (plan.deadEnds ++ plan.reachable ++
      plan.unreachable.map UnreachableTarget.targetId).Perm
        ((graph.targets.filter fun t => status t.id ≠ .completed).map GoalTarget.id) :=
    (((List.perm_insertionSort _ _).append (List.perm_insertionSort _ _)).append_right _).trans
      hplanned.partition
  have hdead : ∀ v ∈ plan.deadEnds, status v ∈ deadEndStatuses := fun v hv =>
    hplanned.deadEnds v (mem_sortBy.1 hv)
  have hreach : ∀ v ∈ plan.reachable, status v ∉ deadEndStatuses ∧ ¬ Stuck graph.targets status v :=
    fun v hv => hplanned.reachable v (mem_sortBy.1 hv)
  have hunreach : ∀ v ∈ plan.unreachable.map UnreachableTarget.targetId,
      status v ∉ deadEndStatuses ∧ Stuck graph.targets status v := by
    intro v hv
    obtain ⟨u, hu, rfl⟩ := List.mem_map.1 hv
    exact hplanned.unreachable u hu
  -- A target that is not completed is in one of the three lists.
  have hplace : ∀ v ∈ graph.targets.map GoalTarget.id, status v ≠ .completed →
      v ∈ plan.deadEnds ∨ v ∈ plan.reachable ∨
        v ∈ plan.unreachable.map UnreachableTarget.targetId := by
    intro v hv hopen
    obtain ⟨t, ht, rfl⟩ := List.mem_map.1 hv
    have hmem := hperm.mem_iff.2 (List.mem_map_of_mem (f := GoalTarget.id)
      (List.mem_filter.2 ⟨ht, decide_eq_true hopen⟩))
    simpa [or_assoc] using hmem
  refine ⟨hperm, fun v hv => ⟨⟨hdead v, fun hs => ?_⟩, fun hs => ⟨fun hu => (hunreach v hu).2, ?_⟩⟩,
    ?_, fun ledger now now' => ?_⟩
  · rcases hplace v hv (not_completed hs) with h | h | h
    · exact h
    · exact absurd hs (hreach v h).1
    · exact absurd hs (hunreach v h).1
  · intro hstuck
    have hopen : status v ≠ .completed := by
      obtain ⟨w, -, hpath⟩ := hstuck
      exact hpath.1
    rcases hplace v hv hopen with h | h | h
    · exact absurd (hdead v h) hs
    · exact absurd hstuck (hreach v h).2
    · exact h
  · have hsame : graph.targets.filter (selects status) = graph.targets.filter fun t =>
        (markBlocked run newlyBlocked).statusOrQueued t.id ∈ selectable &&
          dependenciesCompleted (markBlocked run newlyBlocked) t :=
      List.filter_congr fun t _ => (selects_markBlocked t).symm
    refine List.Perm.map _ ?_
    refine (List.perm_insertionSort _ _).trans ?_
    rw [hplanned.eligible, hsame]
    exact (List.perm_insertionSort _ _).symm
  · have hnodup : (plan.unreachable.map UnreachableTarget.targetId).Nodup := by
      have hids : ((graph.targets.filter fun t => status t.id ≠ .completed).map
          GoalTarget.id).Nodup :=
        hT.ids.sublist (List.Sublist.map _ List.filter_sublist)
      exact (List.nodup_append.1 (hperm.nodup_iff.2 hids)).2.1
    refine recordReasons_twice hnodup (fun u hu => ?_) now'
    rw [(hplanned.blockedBy u hu).1]
    exact isUnreachable_reason _

end Exact

def chainJs : JsValue :=
  let target (id : String) (dependsOn : List JsValue) : JsValue :=
    .obj [("id", .str id), ("stage", .str "one"), ("title", .str "T"), ("dependsOn", .arr dependsOn),
      ("priority", .nat 0), ("executor", .str "shell"), ("artifacts", .arr []),
      ("acceptance", .arr [.str "done"])]
  .obj [("schemaVersion", .str "1"), ("name", .str "Chain"),
    ("constitution", .obj [("objectiveOwner", .str "human"), ("invariants", .arr []),
      ("resourceLimits", limitsJs), ("allowedUnattended", .arr []), ("needsApproval", .arr [])]),
    ("executionGraph", .obj [("entry", .str "shell"),
      ("nodes", .arr [.obj [("id", .str "shell"), ("next", .arr [])]])]),
    ("targets", .arr [target "a" [], target "b" [.str "a"]])]

def emptyRun : GoalRunLedger where
  runId := "run-1"
  graphId := "chain"
  graphRevision := 1
  graphDigest := ""
  status := .created
  ledgerRevision := 1
  targets := ∅
  resource := ⟨0, 0, ⟨0, epoch_valid⟩, ⟨0, epoch_valid⟩⟩
  createdBy := "me"
  createdAt := ⟨0, epoch_valid⟩
  updatedAt := ⟨0, epoch_valid⟩

/-- `b` depends on `a`, which has just been blocked. -/
theorem chain_planning_exact :
    Stuck (GoalGraphDefinition.ofJs chainJs).targets (statusOf emptyRun ["a"]) "b" :=
  have hvalid : validateGoalGraph compareStrings chainJs = [] := by decide
  (((blocked_planning_exact hvalid emptyRun ["a"]).2.1 "b" (by decide)).2
    (by decide)).1 (by decide)

end Wazir.Goals.Continuation
