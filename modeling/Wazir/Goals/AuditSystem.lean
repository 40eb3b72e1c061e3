import Wazir.Async.Trace
import Wazir.Goals.AuditVerification

/-! The audit log under many governance instances. Each instance runs its appends one after
another; between instances nothing is ordered, and an append puts under the number that its
listing gave it. -/

namespace Wazir.Goals

open Wazir.Async JsValue

/-- `queued` and `finished` count the appends of each instance's chain. -/
structure AuditShared where
  entries : AuditStore
  queued : ℕ → ℕ
  finished : ℕ → ℕ

def emptyAudit : AuditShared := ⟨[], fun _ => 0, fun _ => 0⟩

inductive AuditOp where
  /-- Join the chain, behind so many appends. -/
  | enqueue (auditChain : ℕ)
  /-- So many appends are on the chain. -/
  | tail (auditChain : ℕ)
  | turn (auditChain ahead : ℕ)
  | settled (auditChain : ℕ)
  | clock
  | list
  | put (key : String) (value : JsValue)

abbrev AuditRes : AuditOp → Type
  | .enqueue _ => ℕ
  | .tail _ => ℕ
  | .turn _ _ => Unit
  | .settled _ => Unit
  | .clock => JsDate
  | .list => Except Thrown (List JsValue)
  | .put _ _ => Except Thrown Unit

/-- A put that fails may have `written` all the same. -/
structure AuditInput where
  now : JsDate
  fault : Option Thrown
  written : Bool

def AuditInput.lands (inp : AuditInput) : Bool := inp.fault.isNone || inp.written

def auditExec (store : RevivingStore) (parseDate : String → JsDate) (op : AuditOp)
    (inp : AuditInput) (s : AuditShared) : Option (AuditRes op × AuditShared) :=
  match op with
  | .enqueue chain =>
    some (s.queued chain, { s with queued := Function.update s.queued chain (s.queued chain + 1) })
  | .tail chain => some (s.queued chain, s)
  | .turn chain ahead => if ahead ≤ s.finished chain then some ((), s) else none
  | .settled chain =>
    some ((), { s with finished := Function.update s.finished chain (s.finished chain + 1) })
  | .clock => some (inp.now, s)
  | .list => some (guarded inp.fault (listed store parseDate s.entries), s)
  | .put key value =>
    some (guarded inp.fault (),
      if inp.lands then { s with entries := s.entries.put key value } else s)

abbrev AuditProg := Prog AuditOp AuditRes Thrown

structure GoalAuditQuery where
  afterSeq : Option ℚ
  runId : Option String
  targetId : Option String
  type : Option String
  effect : Option String
  principal : Option String
  limit : Option ℚ

/-- A filter that is absent or empty takes everything. -/
def fieldMatches (wanted : Option String) (value : JsValue) : Bool :=
  wanted.all fun s => s = "" || strictEqual value (.str s)

def GoalAuditQuery.takes (query : GoalAuditQuery) (record : JsValue) : Bool :=
  let event := record.get "event"
  let data := event.get "data"
  (query.afterSeq.all fun after : ℚ => after < ((seqNumberOf record).getD 0 : ℕ)) &&
    fieldMatches query.runId (event.get "runId") &&
    fieldMatches query.targetId (event.get "targetId") &&
    fieldMatches query.type (event.get "type") &&
    fieldMatches query.effect (data.get "effect") &&
    fieldMatches query.principal (data.get "principal")

/-- What `queryAudit` makes of what it lists. -/
def queriedRecords (query : GoalAuditQuery) (listed : List JsValue) : List JsValue :=
  let filtered := (auditRecords listed).filter query.takes
  match query.limit with
  | some limit =>
    if 0 < limit ∧ limit < filtered.length then filtered.drop ⌊filtered.length - limit⌋.toNat
    else filtered
  | none => filtered

section Procedures

variable (sanitizeUntrustedOutput : String → String) (localeCompare : String → String → Ordering)
  (sha256 : String → String)

def appendAuditInternal (rawEvent : RawAuditEvent) : AuditProg JsValue := do
  let existing ← (.call .list .resume : AuditProg (List JsValue))
  let now ← (.call .clock .ret : AuditProg JsDate)
  let recordedAt ← (.resume now.toISOString : AuditProg Timestamp)
  let next := nextRecord sanitizeUntrustedOutput localeCompare sha256 existing (isoText recordedAt)
    rawEvent
  (.call (.put (auditSeqKey next.1) next.2) .resume : AuditProg Unit)
  return next.2

def enqueueAudit (auditChain : ℕ) (rawEvent : RawAuditEvent) : AuditProg JsValue :=
  .call (.enqueue auditChain) fun ahead => .call (.turn auditChain ahead) fun _ =>
    (appendAuditInternal sanitizeUntrustedOutput localeCompare sha256 rawEvent).ensure
      (.call (.settled auditChain) .ret)

/-- What the store lists once the chain has come to its present end. -/
def listAfterChain (auditChain : ℕ) : AuditProg (List JsValue) :=
  .call (.tail auditChain) fun ahead => .call (.turn auditChain ahead) fun _ => .call .list .resume

inductive AuditCall where
  | appendAudit (rawEvent : RawAuditEvent)
  | queryAudit (query : GoalAuditQuery)
  | verifyAuditChain

structure AuditRequest where
  auditChain : ℕ
  call : AuditCall

inductive AuditReply where
  | appended (record : JsValue)
  | queried (records : List JsValue)
  | verified (report : ChainReport)

def AuditRequest.body (c : AuditRequest) : AuditProg AuditReply :=
  match c.call with
  | .appendAudit rawEvent => AuditReply.appended <$>
      enqueueAudit sanitizeUntrustedOutput localeCompare sha256 c.auditChain rawEvent
  | .queryAudit query =>
    (fun l => AuditReply.queried (queriedRecords query l)) <$> listAfterChain c.auditChain
  | .verifyAuditChain =>
    (fun l => AuditReply.verified (Goals.verifyAuditChain localeCompare sha256 l)) <$>
      listAfterChain c.auditChain

def auditSystem (store : RevivingStore) (parseDate : String → JsDate) :
    System AuditOp AuditRes Thrown AuditReply AuditRequest ℕ AuditInput AuditShared where
  body := AuditRequest.body sanitizeUntrustedOutput localeCompare sha256
  proc := AuditRequest.auditChain
  exec := auditExec store parseDate
  admits _ s := some s
  crash _ s := s

end Procedures

abbrev AuditEntry := Entry AuditOp AuditRes AuditRequest AuditInput AuditShared
abbrev AuditHist := Hist AuditOp AuditRes AuditRequest ℕ AuditInput AuditShared
abbrev AuditConfig := Config AuditOp AuditRes Thrown AuditReply AuditRequest ℕ AuditInput AuditShared

/-- What a put leaves in the store. -/
def landing (e : AuditEntry) : Option (String × JsValue) :=
  match e.op with
  | .put key value => if e.input.lands then some (key, value) else none
  | _ => none

/-- A put does not replace a record. -/
def Apart (_ : AuditHist) (e : AuditEntry) : Prop :=
  ∀ kv, landing e = some kv → kv.1 ∉ e.before.entries.map Prod.fst

end Wazir.Goals
