import Wazir.Goals.EventLog

/-! The event log of the API (`goalStudio/controlEventLog.ts`): the head of a run gives out the
numbers and each event has a key of its own. Keys are the store's own strings, so that what runs
with unlucky names do to each other shows. Subscribers hear of an event after it is stored and are
left out. -/

namespace Wazir.Api

open Wazir.Async Wazir.Goals

/-- `headKey` -/
def headKey (runId : GoalRunId) : String := "goals/events/" ++ runId

/-- `eventPrefix` -/
def eventPrefix (runId : GoalRunId) : String := "goals/events/" ++ runId ++ "/"

/-- `GOAL_STORE_KEYS.event` -/
def eventKey (runId : GoalRunId) (seq : ℕ) : String := eventPrefix runId ++ padded 10 seq

/-- A value under such a key. -/
inductive Logged where
  | head (seq : ℕ)
  | event (event : GoalStudioEvent)

def Logged.seq : Logged → ℕ
  | .head seq => seq
  | .event e => e.seq

/-- An append that waits for its turn: the log it was called on, its run, and its place. -/
structure Ticket where
  log : ℕ
  runId : GoalRunId
  number : ℕ
  deriving DecidableEq

structure LogStore where
  values : Table String Logged
  /-- The chains of all logs, first come first. -/
  chains : List Ticket
  tickets : ℕ

def LogStore.empty : LogStore := ⟨∅, [], 0⟩

def LogStore.list (s : LogStore) (start : String) : List Logged :=
  (s.values.entries.filter fun kv => start.toList.isPrefixOf kv.1.toList).map fun kv => kv.2

/-- The head under the key, as a number. -/
def LogStore.head (s : LogStore) (runId : GoalRunId) : Option ℕ :=
  (s.values.lookup (headKey runId)).map Logged.seq

def LogStore.put (s : LogStore) (key : String) (value : Logged) : LogStore :=
  { s with values := s.values.insert key value }

/-- The closure of `nextSeq`'s update. -/
def nextHead (current : Option ℕ) (floor : ℕ) : ℕ := max (current.getD 0) floor + 1

inductive LogOp where
  | join (log : ℕ) (runId : GoalRunId)
  | turn (ticket : Ticket)
  | leave (ticket : Ticket)
  | clock
  | getHead (runId : GoalRunId)
  | list (runId : GoalRunId)
  | updateHead (runId : GoalRunId) (floor : ℕ)
  | putHead (runId : GoalRunId) (seq : ℕ)
  | putEvent (runId : GoalRunId) (event : GoalStudioEvent)

abbrev LogRes : LogOp → Type
  | .join _ _ => Ticket
  | .turn _ => Unit
  | .leave _ => Unit
  | .clock => JsDate
  | .getHead _ => Except Thrown (Option ℕ)
  | .list _ => Except Thrown (List Logged)
  | .updateHead _ _ => Except Thrown ℕ
  | .putHead _ _ => Except Thrown Unit
  | .putEvent _ _ => Except Thrown Unit

/-- One step; an append whose predecessor on its chain is under way waits. -/
def logExec (op : LogOp) (inp : EventInput) (s : LogStore) : Option (LogRes op × LogStore) :=
  match op with
  | .join log runId =>
    some (⟨log, runId, s.tickets⟩,
      { s with chains := s.chains ++ [⟨log, runId, s.tickets⟩], tickets := s.tickets + 1 })
  | .turn ticket =>
    if s.chains.find? (fun t => t.log = ticket.log && t.runId = ticket.runId) = some ticket then
      some ((), s)
    else none
  | .leave ticket => some ((), { s with chains := s.chains.filter fun t => t ≠ ticket })
  | .clock => some (inp.now, s)
  | .getHead runId => some (guarded inp.fault (s.head runId), s)
  | .list runId => some (guarded inp.fault (s.list (eventPrefix runId)), s)
  | .updateHead runId floor =>
    let seq := nextHead (s.head runId) floor
    some (guarded inp.fault seq, if inp.lands then s.put (headKey runId) (.head seq) else s)
  | .putHead runId seq =>
    some (guarded inp.fault (), if inp.lands then s.put (headKey runId) (.head seq) else s)
  | .putEvent runId event =>
    some (guarded inp.fault (),
      if inp.lands then s.put (eventKey runId event.seq) (.event event) else s)

abbrev LogProg := Prog LogOp LogRes Thrown

namespace StoreGoalEventLog

def lastPersistedSeq (runId : GoalRunId) : LogProg ℕ := do
  let entries ← (.call (.list runId) .resume : LogProg (List Logged))
  return entries.foldl (fun m entry => if m < entry.seq then entry.seq else m) 0

/-- `atomic`: the store has an `update`. -/
def nextSeq (atomic : Bool) (runId : GoalRunId) : LogProg ℕ := do
  let existing ← (.call (.getHead runId) .resume : LogProg (Option ℕ))
  let floor ← (if existing.isSome then return 0 else lastPersistedSeq runId : LogProg ℕ)
  if atomic then .call (.updateHead runId floor) .resume
  else
    let seq := nextHead existing floor
    (.call (.putHead runId seq) .resume : LogProg Unit)
    return seq

def timestampOr : Option String → LogProg String
  | some timestamp => return timestamp
  | none => do
    let now ← (.call .clock .ret : LogProg JsDate)
    let t ← (.resume now.toISOString : LogProg Timestamp)
    return isoText t

def appendNow (atomic : Bool) (runId : GoalRunId) (input : GoalEventInput) :
    LogProg GoalStudioEvent := do
  let seq ← nextSeq atomic runId
  let timestamp ← timestampOr input.timestamp
  let event : GoalStudioEvent := ⟨⟨input.type, some runId, input.targetId, input.attemptId,
    input.executionId, timestamp, input.data.getD (.obj [])⟩, seq⟩
  (.call (.putEvent runId event) .resume : LogProg Unit)
  return event

def append (atomic : Bool) (log : ℕ) (input : GoalEventInput) : LogProg GoalStudioEvent :=
  let runId := input.runId.getD ""
  if runId = "" then .resume (fail .validation "goal studio events must carry a runId")
  else do
    let ticket ← (.call (.join log runId) .ret : LogProg Ticket)
    (.call (.turn ticket) fun _ => appendNow atomic runId input : LogProg GoalStudioEvent).ensure
      (.call (.leave ticket) .ret)

def readCap (maxRead : ℕ) (limit : Option ℕ) : ℕ := max 1 (min (limit.getD maxRead) maxRead)

/-- What `read` makes of the listed values; a head that is listed counts as an event. -/
def page (listed : List Logged) (afterSeq cap : ℕ) : List Logged :=
  (sortBy (fun a b => compare a.seq b.seq) (listed.filter fun e => afterSeq < e.seq)).take cap

def read (maxRead : ℕ) (runId : GoalRunId) (afterSeq : ℕ) (limit : Option ℕ) :
    LogProg (List Logged) := do
  let entries ← (.call (.list runId) .resume : LogProg (List Logged))
  return page entries afterSeq (readCap maxRead limit)

end StoreGoalEventLog

/-- A client that reads on from the last number it saw, once for each of the `limits`; a read that
fails is repeated. The pages it was given, in order. -/
def follow (maxRead : ℕ) (runId : GoalRunId) : ℕ → List (Option ℕ) → LogProg (List (List Logged))
  | _, [] => .ret []
  | lastSeqSeen, limit :: limits =>
    (StoreGoalEventLog.read maxRead runId lastSeqSeen limit).settle fun
      | .ok page => do
        let pages ← follow maxRead runId ((page.getLast?.map Logged.seq).getD lastSeqSeen) limits
        return page :: pages
      | .error _ => follow maxRead runId lastSeqSeen limits

inductive LogCall where
  | append (input : GoalEventInput)
  | read (runId : GoalRunId) (afterSeq : ℕ) (limit : Option ℕ)
  | follow (runId : GoalRunId) (afterSeq : ℕ) (limits : List (Option ℕ))

/-- A call on one of the logs. -/
structure LogRequest where
  log : ℕ
  call : LogCall

inductive LogReply where
  | appended (event : GoalStudioEvent)
  | events (page : List Logged)
  | pages (pages : List (List Logged))

def LogRequest.body (atomic : Bool) (maxRead : ℕ) (c : LogRequest) : LogProg LogReply :=
  match c.call with
  | .append input => LogReply.appended <$> StoreGoalEventLog.append atomic c.log input
  | .read runId afterSeq limit =>
    LogReply.events <$> StoreGoalEventLog.read maxRead runId afterSeq limit
  | .follow runId afterSeq limits => LogReply.pages <$> follow maxRead runId afterSeq limits

/-- The logs over one store. A log that is lost takes its chains with it. -/
abbrev logSystem (atomic : Bool) (maxRead : ℕ) :
    System LogOp LogRes Thrown LogReply LogRequest ℕ EventInput LogStore where
  body := LogRequest.body atomic maxRead
  proc := LogRequest.log
  exec := logExec
  admits _ s := some s
  crash log s := { s with chains := s.chains.filter fun t => t.log ≠ log }

abbrev LogEntry := Entry LogOp LogRes LogRequest EventInput LogStore
abbrev LogHist := Hist LogOp LogRes LogRequest ℕ EventInput LogStore
abbrev LogConfig := Config LogOp LogRes Thrown LogReply LogRequest ℕ EventInput LogStore

end Wazir.Api
