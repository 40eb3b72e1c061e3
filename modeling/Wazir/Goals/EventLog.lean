import Wazir.Goals.LedgerSystem
import Wazir.Shared.JsValue

/-! The event log (`ledger/eventLog.ts`): numbers come from an atomic update of the stream's head,
which keeps the latest events; each event then gets a key of its own. -/

namespace Wazir.Goals

open Wazir.Async JsValue

/-- An event without its number. -/
structure EventBody where
  type : String
  runId : Option GoalRunId
  targetId : Option TargetId
  attemptId : Option TargetAttemptId
  executionId : Option String
  timestamp : String
  data : Json

structure GoalStudioEvent extends EventBody where
  seq : ℕ

structure EventHead where
  v : ℕ
  runId : GoalRunId
  seq : ℕ
  recent : List GoalStudioEvent

/-- `RECENT_WINDOW` -/
def recentLimit : ℕ := 64

/-- `slice(-RECENT_WINDOW)` -/
def recentSlice (events : List GoalStudioEvent) : List GoalStudioEvent :=
  events.drop (events.length - recentLimit)

/-- The closure of `append`: the event with its number, and the head with the event. -/
def allocate (stream : GoalRunId) (base : EventBody) (current : Option EventHead) :
    GoalStudioEvent × EventHead :=
  let head := current.getD ⟨1, stream, 0, []⟩
  let event : GoalStudioEvent := ⟨base, head.seq + 1⟩
  (event, { head with seq := event.seq, recent := recentSlice (head.recent ++ [event]) })

structure EventShared where
  heads : Table GoalRunId EventHead
  events : Table (GoalRunId × ℕ) GoalStudioEvent

def emptyEvents : EventShared := ⟨∅, ∅⟩

def EventShared.listEvents (s : EventShared) (stream : GoalRunId) : List GoalStudioEvent :=
  (s.events.entries.filter fun kv => kv.1.1 = stream).map fun kv => kv.2

inductive EventOp where
  | clock
  | getHead (stream : GoalRunId)
  | updateHead (stream : GoalRunId) (base : EventBody)
  | getEvent (stream : GoalRunId) (seq : ℕ)
  | putEvent (stream : GoalRunId) (event : GoalStudioEvent)
  | listEvents (stream : GoalRunId)

abbrev EventRes : EventOp → Type
  | .clock => JsDate
  | .getHead _ => Except Thrown (Option EventHead)
  | .updateHead _ _ => Except Thrown GoalStudioEvent
  | .getEvent _ _ => Except Thrown (Option GoalStudioEvent)
  | .putEvent _ _ => Except Thrown Unit
  | .listEvents _ => Except Thrown (List GoalStudioEvent)

/-- A write that fails may have `written` all the same. -/
structure EventInput where
  now : JsDate
  fault : Option Thrown
  written : Bool

def EventInput.lands (inp : EventInput) : Bool := inp.fault.isNone || inp.written

def EventShared.allocate (s : EventShared) (stream : GoalRunId) (base : EventBody) : EventShared :=
  { s with heads := s.heads.insert stream (Goals.allocate stream base (s.heads.lookup stream)).2 }

def EventShared.putEvent (s : EventShared) (stream : GoalRunId) (event : GoalStudioEvent) :
    EventShared :=
  { s with events := s.events.insert (stream, event.seq) event }

def eventExec (op : EventOp) (inp : EventInput) (s : EventShared) : EventRes op × EventShared :=
  match op with
  | .clock => (inp.now, s)
  | .getHead stream => (guarded inp.fault (s.heads.lookup stream), s)
  | .updateHead stream base =>
    (guarded inp.fault (allocate stream base (s.heads.lookup stream)).1,
      if inp.lands then s.allocate stream base else s)
  | .getEvent stream seq => (guarded inp.fault (s.events.lookup (stream, seq)), s)
  | .putEvent stream event =>
    (guarded inp.fault (), if inp.lands then s.putEvent stream event else s)
  | .listEvents stream => (guarded inp.fault (s.listEvents stream), s)

abbrev EventProg := Prog EventOp EventRes Thrown

/-- What a caller appends. -/
structure GoalEventInput where
  type : String
  runId : Option GoalRunId
  targetId : Option TargetId
  attemptId : Option TargetAttemptId
  executionId : Option String
  timestamp : Option String
  data : Option Json

namespace GoalEventLog

/-- `GLOBAL_EVENT_STREAM` -/
def globalEventStream : GoalRunId := "_global"

def defaultReadLimit : ℕ := 1000

def timestampOr : Option String → EventProg String
  | some timestamp => return timestamp
  | none => do
    let now ← (.call .clock .ret : EventProg JsDate)
    let t ← (.resume now.toISOString : EventProg Timestamp)
    return isoText t

def materialise (stream : GoalRunId) : List GoalStudioEvent → EventProg Unit
  | [] => return
  | event :: rest => do
    let present ← (.call (.getEvent stream event.seq) .resume :
      EventProg (Option GoalStudioEvent))
    if present.isSome then materialise stream rest
    else
      (.call (.putEvent stream event) .resume : EventProg Unit)
      materialise stream rest

def append (input : GoalEventInput) : EventProg GoalStudioEvent := do
  if input.type = "" then .resume (fail .validation "event requires a type")
  else
    let stream := input.runId.getD globalEventStream
    if !GoalLedgerStore.validRunId stream then
      .resume (fail .validation ("invalid run id '" ++ stream ++ "'"))
    else
      let timestamp ← timestampOr input.timestamp
      let base : EventBody := ⟨input.type, input.runId, input.targetId, input.attemptId,
        input.executionId, timestamp, input.data.getD (.obj [])⟩
      -- before what a crashed appender left only in the head can slide out of it
      let before ← (.call (.getHead stream) .resume : EventProg (Option EventHead))
      materialise stream ((before.map EventHead.recent).getD [])
      let event ← (.call (.updateHead stream base) .resume : EventProg GoalStudioEvent)
      -- a put that fails is swallowed: the event is still readable from the head
      .call (.putEvent stream event) fun _ => .ret event

/-- `bySeq`: the listed events, then the recent ones that are not among them. -/
def collected (listed recent : List GoalStudioEvent) : Table ℕ GoalStudioEvent :=
  recent.foldl (fun m e => if e.seq ∈ m then m else m.insert e.seq e)
    (listed.foldl (fun m e => m.insert e.seq e) ∅)

def readAfter : JsNumber → ℕ
  | .finite q => ⌊q⌋.toNat
  | _ => 0

def readMax : JsNumber → ℕ
  | .finite q => if 0 < q then ⌊q⌋.toNat else defaultReadLimit
  | _ => defaultReadLimit

/-- What `read` makes of a head and what it lists. -/
def readEvents (head : EventHead) (listed : List GoalStudioEvent) (after max : ℕ) :
    List GoalStudioEvent :=
  (sortBy (fun a b => compare a.seq b.seq)
    (((collected listed head.recent).entries.map fun kv => kv.2).filter fun e =>
      after < e.seq && e.seq ≤ head.seq)).take max

def read (runId : Option GoalRunId) (afterSeq limit : JsNumber) :
    EventProg (List GoalStudioEvent) := do
  let stream := runId.getD globalEventStream
  let head ← (.call (.getHead stream) .resume : EventProg (Option EventHead))
  match head with
  | none => return []
  | some head =>
    let listed ← (.call (.listEvents stream) .resume : EventProg (List GoalStudioEvent))
    return readEvents head listed (readAfter afterSeq) (readMax limit)

end GoalEventLog

/-! The log under any number of callers. -/

inductive EventCall where
  | append (input : GoalEventInput)
  | read (runId : Option GoalRunId) (afterSeq limit : JsNumber)

structure EventRequest where
  process : ℕ
  call : EventCall

inductive EventReply where
  | appended (event : GoalStudioEvent)
  | events (events : List GoalStudioEvent)

def EventRequest.body (c : EventRequest) : EventProg EventReply :=
  match c.call with
  | .append input => EventReply.appended <$> GoalEventLog.append input
  | .read runId afterSeq limit => EventReply.events <$> GoalEventLog.read runId afterSeq limit

def eventSystem :
    System EventOp EventRes Thrown EventReply EventRequest ℕ EventInput EventShared where
  body := EventRequest.body
  proc := EventRequest.process
  exec op inp s := some (eventExec op inp s)
  admits _ s := some s
  crash _ s := s

abbrev EventEntry := Entry EventOp EventRes EventRequest EventInput EventShared
abbrev EventHist := Hist EventOp EventRes EventRequest ℕ EventInput EventShared
abbrev EventConfig := Config EventOp EventRes Thrown EventReply EventRequest ℕ EventInput EventShared

end Wazir.Goals
