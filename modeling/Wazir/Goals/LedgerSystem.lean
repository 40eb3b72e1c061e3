import Wazir.Async.Trace
import Wazir.Goals.LedgerStore

/-! The ledger store's procedures over a key-value store whose `update` on one key is atomic;
two keys never change together. Fault injection (`injectFault`) is inactive outside tests
and left out: a process may crash between any two commands anyway. -/

namespace Wazir.Goals

open Wazir.Async

/-- The store. -/
structure LedgerShared where
  runs : Table GoalRunId RunEnvelope
  transitions : Table (GoalRunId × ℕ) StoredTransition

inductive LedgerOp where
  | clock
  | randomUUID
  | getRun (runId : GoalRunId)
  | updateRun (runId : GoalRunId) (u : RunUpdate)
  | getTransition (runId : GoalRunId) (seq : ℕ)
  | putTransition (runId : GoalRunId) (seq : ℕ) (stored : StoredTransition)
  | listTransitions (runId : GoalRunId)

abbrev LedgerRes : LedgerOp → Type
  | .clock => JsDate
  | .randomUUID => String
  | .getRun _ => Except Thrown (Option RunEnvelope)
  | .updateRun _ _ => Except Thrown (Option RunEnvelope × Option StoredLease)
  | .getTransition _ _ => Except Thrown (Option StoredTransition)
  | .putTransition _ _ _ => Except Thrown Unit
  | .listTransitions _ => Except Thrown (List StoredTransition)

/-- `fault` is the error the store raises, if it does. -/
structure LedgerInput where
  now : JsDate
  uuid : String
  fault : Option Thrown

def LedgerShared.listTransitions (s : LedgerShared) (runId : GoalRunId) : List StoredTransition :=
  (s.transitions.entries.filter fun kv => kv.1.1 = runId).map fun kv => kv.2

def LedgerShared.setRun (s : LedgerShared) (runId : GoalRunId) : Option RunEnvelope → LedgerShared
  | some e => { s with runs := s.runs.insert runId e }
  | none => s

def ledgerExec (op : LedgerOp) (inp : LedgerInput) (s : LedgerShared) :
    LedgerRes op × LedgerShared :=
  match op with
  | .clock => (inp.now, s)
  | .randomUUID => (inp.uuid, s)
  | .getRun runId => (guarded inp.fault (s.runs.lookup runId), s)
  | .updateRun runId u =>
    match guarded inp.fault () with
    | .error e => (.error e, s)
    | .ok _ =>
      match u.apply runId inp.now (s.runs.lookup runId) with
      | .error e => (.error e, s)
      | .ok out => (.ok out, s.setRun runId out.1)
  | .getTransition runId seq => (guarded inp.fault (s.transitions.lookup (runId, seq)), s)
  | .putTransition runId seq stored =>
    match guarded inp.fault () with
    | .error e => (.error e, s)
    | .ok _ => (.ok (), { s with transitions := s.transitions.insert (runId, seq) stored })
  | .listTransitions runId => (guarded inp.fault (s.listTransitions runId), s)

@[simp] theorem LedgerShared.setRun_transitions (s : LedgerShared) (runId : GoalRunId)
    (e : Option RunEnvelope) : (s.setRun runId e).transitions = s.transitions := by
  cases e <;> rfl

theorem LedgerShared.setRun_other (s : LedgerShared) {runId k : GoalRunId}
    (e : Option RunEnvelope) (hk : k ≠ runId) :
    (s.setRun runId e).runs.lookup k = s.runs.lookup k := by
  cases e with
  | none => rfl
  | some e => exact AList.lookup_insert_ne hk

/-- What `update` does: nothing when the closure throws or the store fails. -/
theorem ledgerExec_update {runId : GoalRunId} {u : RunUpdate} {inp : LedgerInput}
    {s s' : LedgerShared} {r : LedgerRes (.updateRun runId u)}
    (h : ledgerExec (.updateRun runId u) inp s = (r, s')) :
    (∃ e, r = .error e ∧ s' = s) ∨
    ∃ out, u.apply runId inp.now (s.runs.lookup runId) = .ok out ∧ r = .ok out ∧
      s'.runs.lookup runId = out.1 ∧ s' = s.setRun runId out.1 := by
  simp only [ledgerExec] at h
  split at h
  · cases h
    exact .inl ⟨_, rfl, rfl⟩
  split at h
  · cases h
    exact .inl ⟨_, rfl, rfl⟩
  rename_i out hout
  cases h
  refine .inr ⟨out, hout, rfl, ?_, rfl⟩
  cases hl : s.runs.lookup runId with
  | some old =>
    rw [hl] at hout
    obtain ⟨e, he⟩ := RunUpdate.apply_keeps hout
    simp [he, LedgerShared.setRun]
  | none =>
    cases ho : out.1 with
    | some e => simp [LedgerShared.setRun]
    | none => simpa [LedgerShared.setRun] using hl

/-- No other command writes an envelope. -/
theorem ledgerExec_runs {op : LedgerOp} {inp : LedgerInput} {s s' : LedgerShared}
    {r : LedgerRes op} (h : ledgerExec op inp s = (r, s'))
    (hop : ∀ runId u, op ≠ .updateRun runId u) : s'.runs = s.runs := by
  cases op with
  | updateRun runId u => exact absurd rfl (hop runId u)
  | putTransition runId seq stored =>
    simp only [ledgerExec] at h
    split at h <;> cases h <;> rfl
  | _ => cases h; rfl

/-! The procedures. -/

abbrev LedgerProg := Prog LedgerOp LedgerRes Thrown

namespace GoalLedgerStore

def readEnvelope (runId : GoalRunId) : LedgerProg (Option RunEnvelope) := do
  match ← (Prog.call (.getRun runId) .resume : LedgerProg (Option RunEnvelope)) with
  | none => return none
  | some envelope =>
    if envelope.v ≠ ledgerEnvelopeVersion then
      .resume (fail .internal ("run '" ++ runId ++ "' has unsupported ledger envelope version " ++
        toString envelope.v))
    else return some envelope

def requireEnvelope (runId : GoalRunId) : LedgerProg RunEnvelope := do
  match ← readEnvelope runId with
  | some envelope => return envelope
  | none => .resume (fail .notFound ("run '" ++ runId ++ "' not found") [("runId", .str runId)])

def update (runId : GoalRunId) (u : RunUpdate) :
    LedgerProg (Option RunEnvelope × Option StoredLease) :=
  .call (.updateRun runId u) .resume

/-- `materialise` from one sequence number on. -/
def materialiseFrom (runId : GoalRunId) (revision : ℤ) :
    ℕ → List TargetTransition → LedgerProg Unit
  | _, [] => return
  | seq, transition :: rest => do
    let present ← (Prog.call (.getTransition runId seq) .resume :
      LedgerProg (Option StoredTransition))
    if present.isSome then materialiseFrom runId revision (seq + 1) rest
    else
      (Prog.call (.putTransition runId seq ⟨seq, revision, transition⟩) .resume : LedgerProg Unit)
      materialiseFrom runId revision (seq + 1) rest

def materialise (runId : GoalRunId) : Option TransitionBatch → LedgerProg Unit
  | none => return
  | some batch => materialiseFrom runId batch.revision batch.firstSeq batch.transitions

def isSafeInteger (n : ℤ) : Bool := -9007199254740991 ≤ n ∧ n ≤ 9007199254740991

/-- `/^[A-Za-z0-9._:-]{1,128}$/`. -/
def validRunId (runId : GoalRunId) : Bool :=
  let chars := runId.toList
  1 ≤ chars.length && chars.length ≤ 128 &&
    chars.all fun c => c.isAlphanum || c = '.' || c = '_' || c = ':' || c = '-'

/-- The properties an object literal inherits from `Object.prototype`: reading one of these keys
from a record with no entry of that name gives something truthy. -/
def inheritedKeys : List String :=
  ["constructor", "hasOwnProperty", "isPrototypeOf", "propertyIsEnumerable", "toLocaleString",
    "toString", "valueOf", "__defineGetter__", "__defineSetter__", "__lookupGetter__",
    "__lookupSetter__", "__proto__"]

/-- The ledger entries of a new run, in the order of the graph's targets. -/
def initialTargets (graph : GoalGraphRevisionRecord) (stampedAt : Timestamp) :
    Table TargetId TargetLedgerEntry → List GoalTarget →
    Except Thrown (Table TargetId TargetLedgerEntry)
  | targets, [] => .ok targets
  | targets, target :: rest =>
    if (targets.lookup target.id).isSome ∨ target.id ∈ inheritedKeys then
      fail .validation ("duplicate target '" ++ target.id ++ "' in graph " ++ graph.graphId ++ "@" ++
        toString graph.revision)
    else
      initialTargets graph stampedAt
        (targets.insert target.id
          { targetId := target.id
            status := if target.dependsOn = [] then .eligible else .queued
            attempts := 0, repairs := 0, lastAttemptId := none, lastExecutionId := none
            evidenceIds := [], blockers := [], updatedAt := stampedAt }) rest

def initialLedger (graph : GoalGraphRevisionRecord) (createdBy : String) (runId : GoalRunId)
    (now : JsDate) : Except Thrown GoalRunLedger := do
  let stampedAt ← now.toISOString
  let targets ← initialTargets graph stampedAt ∅ graph.definition.targets
  let maxRunMinutes : ℤ := graph.definition.resourceLimits.maxRunMinutes
  let deadlineAt ← (now.addMs (maxRunMinutes * 60000)).toISOString
  return {
    runId := runId, graphId := graph.graphId, graphRevision := graph.revision
    graphDigest := graph.digest, status := .created, ledgerRevision := 1, targets := targets
    resource := ⟨0, 0, stampedAt, deadlineAt⟩
    createdBy := createdBy, createdAt := stampedAt, updatedAt := stampedAt }

/-- The caller's run id, or a fresh one. -/
def runIdOr : Option GoalRunId → LedgerProg GoalRunId
  | some runId => return runId
  | none => .call .randomUUID fun uuid => .ret ("run-" ++ uuid)

def createRun (graph : GoalGraphRevisionRecord) (createdBy : String) (runId? : Option GoalRunId) :
    LedgerProg GoalRunLedger := do
  if createdBy = "" then .resume (fail .validation "createRun requires createdBy")
  else
    let runId ← runIdOr runId?
    if !validRunId runId then .resume (fail .validation ("invalid run id '" ++ runId ++ "'"))
    else
      let now ← (Prog.call .clock .ret : LedgerProg JsDate)
      let ledger ← (.resume (initialLedger graph createdBy runId now) : LedgerProg GoalRunLedger)
      let _ ← update runId (.create ledger)
      return ledger

def getRun (runId : GoalRunId) : LedgerProg (Option GoalRunLedger) := do
  let envelope ← readEnvelope runId
  return envelope.map RunEnvelope.ledger

def commit (runId : GoalRunId) (expectedRevision : ℤ) (lease : RunLease)
    (mutate : GoalRunLedger → Except Thrown GoalRunLedger) (transitions : List TargetTransition) :
    LedgerProg GoalRunLedger := do
  if !isSafeInteger expectedRevision then
    .resume (fail .validation "expectedRevision must be an integer")
  else
    let before ← requireEnvelope runId
    let now ← (Prog.call .clock .ret : LedgerProg JsDate)
    (.resume (assertCurrentLease before lease now) : LedgerProg Unit)
    if before.ledger.ledgerRevision ≠ expectedRevision then
      .resume (ledgerConflict runId expectedRevision before.ledger.ledgerRevision)
    else
      -- the previous commit may have crashed before its batch was materialised
      materialise runId before.lastBatch
      let committed ← update runId (.commit expectedRevision lease mutate transitions)
      match committed.1 with
      | none => .resume (runNotFound runId)
      | some envelope =>
        (materialise runId envelope.lastBatch).handle fun _ => .ret ()
        return envelope.ledger

/-- `bySeq`: the listed keys, then the latest batch over them. -/
def collected (listed : List StoredTransition) (batch : Option TransitionBatch) :
    Table ℕ TargetTransition :=
  let bySeq : Table ℕ TargetTransition := listed.foldl (fun m s => m.insert s.seq s.transition) ∅
  match batch with
  | none => bySeq
  | some b => (b.transitions.zipIdx b.firstSeq).foldl (fun m t => m.insert t.2 t.1) bySeq

/-- What `transitions` makes of its two reads, with the sequence numbers. -/
def readHistory (listed : List StoredTransition) (envelope : Option RunEnvelope) :
    List (ℕ × TargetTransition) :=
  let bySeq := collected listed (envelope.bind RunEnvelope.lastBatch)
  let limit := (envelope.map RunEnvelope.transitionSeq).getD 0
  ((bySeq.entries.map fun kv => (kv.1, kv.2)).filter fun e => e.1 ≤ limit).insertionSort
    fun a b => a.1 ≤ b.1

def transitions (runId : GoalRunId) (targetId : Option TargetId) :
    LedgerProg (List TargetTransition) := do
  let listed ← (Prog.call (.listTransitions runId) .resume : LedgerProg (List StoredTransition))
  let envelope ← readEnvelope runId
  return ((readHistory listed envelope).map Prod.snd).filter fun t =>
    targetId.elim true fun id => t.targetId = id

def acquireLease (runId : GoalRunId) (holderId : String) (ttlMs : ℤ) :
    LedgerProg (Option RunLease) := do
  if holderId = "" then .resume (fail .validation "acquireLease requires a holderId")
  else if ttlMs ≤ 0 then .resume (fail .validation "acquireLease requires a positive ttlMs")
  else
    let _ ← requireEnvelope runId
    let r ← update runId (.acquire holderId ttlMs)
    return r.2.map (toLease runId)

def renewLease (lease : RunLease) (ttlMs : ℤ) : LedgerProg RunLease := do
  if ttlMs ≤ 0 then .resume (fail .validation "renewLease requires a positive ttlMs")
  else
    let _ ← requireEnvelope lease.runId
    let r ← update lease.runId (.renew lease ttlMs)
    match r.2 with
    | some renewed => return toLease lease.runId renewed
    | none => .resume (runNotFound lease.runId)

def releaseLease (lease : RunLease) : LedgerProg Unit := do
  match (← readEnvelope lease.runId).bind RunEnvelope.lease with
  | none => return
  | some held =>
    if held.epoch ≠ lease.epoch ∨ held.released then return
    else
      let _ ← update lease.runId (.release lease)
      return

def currentLease (runId : GoalRunId) : LedgerProg (Option (RunLease × Bool)) := do
  let envelope ← readEnvelope runId
  return (envelope.bind RunEnvelope.lease).map fun held => (toLease runId held, held.released)

end GoalLedgerStore

/-! The store under any number of callers. -/

inductive LedgerCall where
  | createRun (graph : GoalGraphRevisionRecord) (createdBy : String) (runId : Option GoalRunId)
  | getRun (runId : GoalRunId)
  | commit (runId : GoalRunId) (expectedRevision : ℤ) (lease : RunLease)
      (mutate : GoalRunLedger → Except Thrown GoalRunLedger) (transitions : List TargetTransition)
  | transitions (runId : GoalRunId) (targetId : Option TargetId)
  | acquireLease (runId : GoalRunId) (holderId : String) (ttlMs : ℤ)
  | renewLease (lease : RunLease) (ttlMs : ℤ)
  | releaseLease (lease : RunLease)
  | currentLease (runId : GoalRunId)

inductive LedgerReply where
  | run (ledger : GoalRunLedger)
  | found (ledger : Option GoalRunLedger)
  | history (transitions : List TargetTransition)
  | lease (lease : Option RunLease)
  | heldBy (lease : Option (RunLease × Bool))
  | done

def LedgerCall.body : LedgerCall → LedgerProg LedgerReply
  | .createRun graph createdBy runId =>
    LedgerReply.run <$> GoalLedgerStore.createRun graph createdBy runId
  | .getRun runId => LedgerReply.found <$> GoalLedgerStore.getRun runId
  | .commit runId expectedRevision lease mutate ts =>
    LedgerReply.run <$> GoalLedgerStore.commit runId expectedRevision lease mutate ts
  | .transitions runId targetId =>
    LedgerReply.history <$> GoalLedgerStore.transitions runId targetId
  | .acquireLease runId holderId ttlMs =>
    LedgerReply.lease <$> GoalLedgerStore.acquireLease runId holderId ttlMs
  | .renewLease lease ttlMs =>
    (fun l => LedgerReply.lease (some l)) <$> GoalLedgerStore.renewLease lease ttlMs
  | .releaseLease lease => (fun _ => LedgerReply.done) <$> GoalLedgerStore.releaseLease lease
  | .currentLease runId => LedgerReply.heldBy <$> GoalLedgerStore.currentLease runId

/-- A call and the process that makes it. -/
structure LedgerRequest where
  process : ℕ
  call : LedgerCall

def ledgerSystem :
    System LedgerOp LedgerRes Thrown LedgerReply LedgerRequest ℕ LedgerInput LedgerShared where
  body r := r.call.body
  proc := LedgerRequest.process
  exec op inp s := some (ledgerExec op inp s)
  admits _ s := some s
  crash _ s := s

abbrev LedgerEntry := Entry LedgerOp LedgerRes LedgerRequest LedgerInput LedgerShared
abbrev LedgerHist := Hist LedgerOp LedgerRes LedgerRequest ℕ LedgerInput LedgerShared
abbrev LedgerConfig :=
  Config LedgerOp LedgerRes Thrown LedgerReply LedgerRequest ℕ LedgerInput LedgerShared

def emptyStore : LedgerShared := ⟨∅, ∅⟩

/-- The store wrote an envelope, or wrote it back unchanged. -/
def wrote (e : LedgerEntry) : Bool :=
  match e.op, e.res with
  | .updateRun _ _, .ok _ => true
  | _, _ => false

/-- A command left all envelopes alone, or is an `update` that went through. -/
theorem ledgerEntry_cases {e : LedgerEntry}
    (hx : ledgerExec e.op e.input e.before = (e.res, e.after)) :
    (wrote e = false ∧ e.after.runs = e.before.runs) ∨
    ∃ i c runId u inp out before,
      e = ⟨i, c, .updateRun runId u, inp, .ok out, before, before.setRun runId out.1⟩ ∧
      u.apply runId inp.now (before.runs.lookup runId) = .ok out ∧
      e.after.runs.lookup runId = out.1 := by
  obtain ⟨i, c, op, inp, r, before, after⟩ := e
  cases op with
  | updateRun runId u =>
    rcases ledgerExec_update hx with ⟨x, rfl, hs⟩ | ⟨out, hu, rfl, hl, hs⟩
    · exact .inl ⟨rfl, congrArg LedgerShared.runs hs⟩
    · simp only at hs
      subst hs
      exact .inr ⟨i, c, runId, u, inp, out, before, rfl, hu, hl⟩
  | _ => exact .inl ⟨rfl, ledgerExec_runs hx (by simp)⟩

theorem ledger_executed {cfg : LedgerConfig} (hr : Reach ledgerSystem emptyStore cfg)
    {e : LedgerEntry} (he : e ∈ cfg.hist.entries) :
    ledgerExec e.op e.input e.before = (e.res, e.after) := by
  simpa [ledgerSystem] using hr.executed he

end Wazir.Goals
