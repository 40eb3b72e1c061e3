import Wazir.Async.RelyGuarantee
import Wazir.Goals.Contracts
import Wazir.Shared.Strings

/-! The prompt store (`prompts/store.ts`): a key for each version, claimed by an atomic update that
leaves what is there, a head for each executor key, and a mutex for each executor key in each process.
Schemas are known by their canonical JSON, so two records whose canonical JSON is the same are the
same; they come back as they were put, without the revival of dates. -/

namespace Wazir.Goals.Prompts

open Wazir.Async

abbrev PromptId := String

/-- The fields that the digest covers. -/
structure PromptContent where
  executorKey : String
  role : String
  template : String
  inputSchema : Option String
  outputSchema : Option String
  requiredCapabilities : List String
  deriving DecidableEq

inductive PromptSource where
  | publish
  | rollback
  | seed
  deriving DecidableEq

structure PromptVersionRecord extends PromptContent where
  id : PromptId
  version : ℕ
  digest : String
  createdAt : Timestamp
  createdBy : String
  parentVersion : Option ℕ
  rollbackOf : Option ℤ
  source : PromptSource
  note : Option String
  deriving DecidableEq

structure PromptHead where
  promptId : PromptId
  executorKey : String
  version : ℕ
  digest : String
  updatedAt : Timestamp
  updatedBy : String
  deriving DecidableEq

structure PromptDraft where
  id : Option PromptId
  executorKey : String
  role : String
  template : String
  inputSchema : Option String
  outputSchema : Option String
  requiredCapabilities : Option (List String)
  note : Option String
  expectedVersion : Option ℤ

structure PromptSeed where
  executorKey : String
  role : String
  template : String
  inputSchema : Option String
  outputSchema : Option String
  requiredCapabilities : Option (List String)

structure PublishResult where
  prompt : PromptVersionRecord
  /-- False when no version was written. -/
  created : Bool
  warnings : List String
  deriving DecidableEq

/-! Drafts. -/

/-- `promptDigest` is the hash of a content's canonical JSON; the others are those of `schema.ts` and
`render.ts`. -/
structure PromptTools where
  promptDigest : PromptContent → String
  checkSchema : String → Option String
  deriveInputSchema : String → Option String
  lintPrompt : PromptContent → List String

def promptIdPattern : String := "/^[A-Za-z0-9][A-Za-z0-9_.-]\x7b0,127\x7d$/"

def validPromptId (id : String) : Bool :=
  match id.toList with
  | [] => false
  | c :: rest => c.isAlphanum && rest.length ≤ 127 &&
      rest.all fun c => c.isAlphanum || c = '_' || c = '.' || c = '-'

def maxTemplateBytes : ℕ := 64 * 1024
def maxSchemaBytes : ℕ := 64 * 1024
def maxCapabilities : ℕ := 64

def require (condition : Bool) (message : String) : Except Thrown Unit :=
  if condition then .ok () else fail .validation message

def normalizeCapabilities : Option (List String) → Except Thrown (List String)
  | none => .ok []
  | some caps => do
    require (caps.all fun cap => trim cap ≠ "")
      "requiredCapabilities must be an array of non-empty strings"
    let unique := sortBy compareStrings (caps.map trim).dedup
    require (unique.length ≤ maxCapabilities)
      ("at most " ++ toString maxCapabilities ++ " requiredCapabilities")
    return unique

def normalizeSchema (tools : PromptTools) (name : String) :
    Option String → Except Thrown (Option String)
  | none => .ok none
  | some schema => do
    require (schema.utf8ByteSize ≤ maxSchemaBytes)
      (name ++ " exceeds " ++ toString maxSchemaBytes ++ " bytes")
    match tools.checkSchema schema with
    | some problem => fail .validation (name ++ " is not a valid JSON Schema: " ++ problem)
    | none => return some schema

/-- Validates a draft and gives its id and content. -/
def normalizeDraft (tools : PromptTools) (draft : PromptDraft) :
    Except Thrown (PromptId × PromptContent) := do
  let executorKey := trim draft.executorKey
  require (validPromptId executorKey) ("executorKey must match " ++ promptIdPattern)
  let id := (draft.id.map trim).getD executorKey
  require (validPromptId id) ("id must match " ++ promptIdPattern)
  let role := trim draft.role
  require (role ≠ "" && (utf16 role).length ≤ 200)
    "role must be a non-empty string of at most 200 characters"
  require (trim draft.template ≠ "") "template must be a non-empty string"
  require (draft.template.utf8ByteSize ≤ maxTemplateBytes)
    ("template exceeds " ++ toString maxTemplateBytes ++ " bytes")
  require (draft.note.all fun note => (utf16 note).length ≤ 2000)
    "note must be a string of at most 2000 characters"
  let inputSchema ← normalizeSchema tools "inputSchema" draft.inputSchema
  let outputSchema ← normalizeSchema tools "outputSchema" draft.outputSchema
  let requiredCapabilities ← normalizeCapabilities draft.requiredCapabilities
  return (id, ⟨executorKey, role, draft.template, inputSchema, outputSchema, requiredCapabilities⟩)

/-- A seed without an input schema gets one from its template. -/
def seeded (tools : PromptTools) (source : PromptSource) (content : PromptContent) : PromptContent :=
  if content.inputSchema = none ∧ source = .seed then
    { content with inputSchema := tools.deriveInputSchema content.template }
  else content

/-! The store. -/

def PromptVersionRecord.key (record : PromptVersionRecord) : PromptId × ℕ := (record.id, record.version)

structure PromptShared where
  versions : Table (PromptId × ℕ) PromptVersionRecord
  heads : Table String PromptHead
  /-- The processes in which a call under an executor key is running. -/
  running : List (ℕ × String)

def emptyPrompts : PromptShared := ⟨∅, ∅, []⟩

/-- `store.list` of a prompt's versions, in order. -/
def versionsOf (s : PromptShared) (promptId : PromptId) : List PromptVersionRecord :=
  sortBy (fun a b => compare a.version b.version)
    ((s.versions.entries.map Sigma.snd).filter (·.id = promptId))

def headOf (record : PromptVersionRecord) : PromptHead where
  promptId := record.id
  executorKey := record.executorKey
  version := record.version
  digest := record.digest
  updatedAt := record.createdAt
  updatedBy := record.createdBy

/-- The closure of `moveHead`. -/
def movedHead (record : PromptVersionRecord) : Option PromptHead → PromptHead
  | none => headOf record
  | some current =>
    if current.promptId ≠ record.id ∨ current.version < record.version then headOf record else current

inductive PromptOp where
  | clock
  /-- The turn of a call in its process's mutex. -/
  | acquire (process : ℕ) (executorKey : String) (promptId : PromptId)
  | release (process : ℕ) (executorKey : String)
  | getHead (executorKey : String)
  | getVersion (promptId : PromptId) (version : ℕ)
  | listVersions (promptId : PromptId)
  | claimSlot (record : PromptVersionRecord)
  | moveHead (record : PromptVersionRecord)
  | onEvent (record : PromptVersionRecord)

abbrev PromptRes : PromptOp → Type
  | .clock => JsDate
  | .acquire _ _ _ => Unit
  | .release _ _ => Unit
  | .getHead _ => Except Thrown (Option PromptHead)
  | .getVersion _ _ => Except Thrown (Option PromptVersionRecord)
  | .listVersions _ => Except Thrown (List PromptVersionRecord)
  | .claimSlot _ => Except Thrown PromptVersionRecord
  | .moveHead _ => Except Thrown Unit
  | .onEvent _ => Except Thrown Unit

/-- `fault` is the error the store or the hook raises, if it does; an update that fails may have
landed. -/
structure PromptInput where
  now : JsDate
  fault : Option Thrown
  landed : Bool

/-- An atomic update with its result. -/
def updated {α : Type} (inp : PromptInput) (value : α) (s s' : PromptShared) :
    Option (Except Thrown α × PromptShared) :=
  match inp.fault with
  | none => some (.ok value, s')
  | some e => some (.error e, if inp.landed then s' else s)

def promptExec (op : PromptOp) (inp : PromptInput) (s : PromptShared) :
    Option (PromptRes op × PromptShared) :=
  match op with
  | .clock => some (inp.now, s)
  | .acquire process executorKey _ =>
    if (process, executorKey) ∈ s.running then none
    else some ((), { s with running := (process, executorKey) :: s.running })
  | .release process executorKey =>
    some ((), { s with running := s.running.erase (process, executorKey) })
  | .getHead executorKey => some (guarded inp.fault (s.heads.lookup executorKey), s)
  | .getVersion promptId version => some (guarded inp.fault (s.versions.lookup (promptId, version)), s)
  | .listVersions promptId => some (guarded inp.fault (versionsOf s promptId), s)
  | .claimSlot record =>
    let stored := (s.versions.lookup record.key).getD record
    updated inp stored s { s with versions := s.versions.insert record.key stored }
  | .moveHead record =>
    let head := movedHead record (s.heads.lookup record.executorKey)
    updated inp () s { s with heads := s.heads.insert record.executorKey head }
  | .onEvent _ => some (guarded inp.fault (), s)

abbrev PromptProg := Prog PromptOp PromptRes Thrown

namespace PromptStore

variable (tools : PromptTools)

structure WriteMode where
  requireNew : Bool
  source : PromptSource
  rollbackOf : Option ℤ

def checkActor (actor : String) : Except Thrown Unit := require (trim actor ≠ "") "actor is required"

/-- One executor key binds to one prompt id. -/
def checkBound (executorKey : String) (promptId : PromptId) : Option PromptHead → Except Thrown Unit
  | none => .ok ()
  | some head =>
    if head.promptId ≠ promptId then
      fail .duplicate ("executorKey '" ++ executorKey ++ "' is already bound to prompt '" ++
          head.promptId ++ "'")
        [("executorKey", .str executorKey), ("promptId", .str head.promptId)]
    else .ok ()

/-- The checks against the latest version. -/
def checkLatest (mode : WriteMode) (expectedVersion : Option ℤ) (id : PromptId) (executorKey : String)
    (latest : Option PromptVersionRecord) : Except Thrown Unit := do
  match latest with
  | none => .ok ()
  | some latest => do
    if mode.requireNew then
      fail .duplicate ("prompt '" ++ id ++ "' already exists (latest version " ++
          toString latest.version ++ ")") [("promptId", .str id), ("version", .num latest.version)]
    if latest.executorKey ≠ executorKey then
      fail .validation ("prompt '" ++ id ++ "' is bound to executorKey '" ++ latest.executorKey ++
          "'; executorKey cannot change between versions") [("promptId", .str id)]
  let currentVersion := (latest.map (·.version)).getD 0
  match expectedVersion with
  | none => .ok ()
  | some expected =>
    if expected ≠ currentVersion then
      fail .ledgerConflict ("prompt '" ++ id ++ "' is at version " ++ toString currentVersion ++
          ", expected " ++ toString expected)
        [("promptId", .str id), ("currentVersion", .num currentVersion),
          ("expectedVersion", .num expected)]
    else .ok ()

def claimSlot (record : PromptVersionRecord) : PromptProg Bool := do
  let stored ← (.call (.claimSlot record) .resume : PromptProg PromptVersionRecord)
  return decide (stored = record)

def moveHead (record : PromptVersionRecord) : PromptProg Unit := .call (.moveHead record) .resume

/-- Event delivery is advisory. -/
def emit (record : PromptVersionRecord) : PromptProg Unit := .call (.onEvent record) fun _ => .ret ()

def nextRecord (draft : PromptDraft) (actor : String) (mode : WriteMode) (id : PromptId)
    (content : PromptContent) (latest : Option PromptVersionRecord) (createdAt : Timestamp) :
    PromptVersionRecord :=
  { content with
    id := id
    version := (latest.map (·.version)).getD 0 + 1
    digest := tools.promptDigest content
    createdAt := createdAt
    createdBy := actor
    parentVersion := latest.map (·.version)
    rollbackOf := mode.rollbackOf
    source := mode.source
    note := draft.note.filter (· ≠ "") }

/-- A version of the same content that makes a new one needless: the latest, and of a seed any. -/
def findSame (mode : WriteMode) (id : PromptId) (digest : String)
    (latest : Option PromptVersionRecord) : PromptProg (Option PromptVersionRecord) := do
  match latest.filter (·.digest = digest) with
  | some same => do
    -- repairs a head left behind by a crash
    moveHead same
    return some same
  | none =>
    if mode.source = .seed ∧ latest.isSome then do
      let all ← (.call (.listVersions id) .resume : PromptProg (List PromptVersionRecord))
      return all.find? (·.digest = digest)
    else return none

/-- The attempts to take a version slot. -/
def attempts (draft : PromptDraft) (actor : String) (mode : WriteMode) (id : PromptId)
    (content : PromptContent) : ℕ → PromptProg PublishResult
  | 0 => .resume (fail .ledgerConflict ("could not claim a version slot for prompt '" ++ id ++ "'") [] true)
  | left + 1 => do
    let all ← (.call (.listVersions id) .resume : PromptProg (List PromptVersionRecord))
    let latest := all.getLast?
    (.resume (checkLatest mode draft.expectedVersion id content.executorKey latest) : PromptProg Unit)
    match ← findSame mode id (tools.promptDigest content) latest with
    | some same => return ⟨same, false, tools.lintPrompt content⟩
    | none => do
      let now ← (.call .clock .ret : PromptProg JsDate)
      let createdAt ← (.resume now.toISOString : PromptProg Timestamp)
      let record := nextRecord tools draft actor mode id content latest createdAt
      if ← claimSlot record then do
        moveHead record
        emit record
        return ⟨record, true, tools.lintPrompt content⟩
      else attempts draft actor mode id content left

/-- `mutex.run`. -/
def locked {α : Type} (process : ℕ) (executorKey : String) (promptId : PromptId) (p : PromptProg α) :
    PromptProg α :=
  .call (.acquire process executorKey promptId) fun _ =>
    p.settle fun out => .call (.release process executorKey) fun _ => .resume out

def write (process : ℕ) (draft : PromptDraft) (actor : String) (mode : WriteMode) :
    PromptProg PublishResult := do
  (.resume (checkActor actor) : PromptProg Unit)
  let normal ← (.resume (normalizeDraft tools draft) : PromptProg (PromptId × PromptContent))
  let id := normal.1
  let content := seeded tools mode.source normal.2
  locked process content.executorKey id do
    let boundHead ← (.call (.getHead content.executorKey) .resume : PromptProg (Option PromptHead))
    (.resume (checkBound content.executorKey id boundHead) : PromptProg Unit)
    attempts tools draft actor mode id content 16

def readVersion (promptId : PromptId) (version : ℤ) : PromptProg (Option PromptVersionRecord) :=
  if validPromptId promptId = false ∨ version < 1 then return none
  else .call (.getVersion promptId version.toNat) .resume

def requireVersion (promptId : PromptId) (version : ℤ) : PromptProg PromptVersionRecord := do
  match ← readVersion promptId version with
  | some record => return record
  | none =>
    .resume (fail .notFound ("prompt '" ++ promptId ++ "' version " ++ toString version ++ " not found")
      [("promptId", .str promptId), ("version", .num version)])

def rollback (process : ℕ) (promptId : PromptId) (toVersion : ℤ) (actor : String)
    (note : Option String) : PromptProg PublishResult := do
  let target ← requireVersion promptId toVersion
  write tools process
    { id := some target.id, executorKey := target.executorKey, role := target.role
      template := target.template, inputSchema := target.inputSchema
      outputSchema := target.outputSchema
      requiredCapabilities := some target.requiredCapabilities
      note := some (note.getD ("rollback to v" ++ toString toVersion)), expectedVersion := none }
    actor ⟨false, .rollback, some toVersion⟩

def seedDraft (seed : PromptSeed) : PromptDraft :=
  { id := some seed.executorKey, executorKey := seed.executorKey, role := seed.role
    template := seed.template, inputSchema := seed.inputSchema, outputSchema := seed.outputSchema
    requiredCapabilities := seed.requiredCapabilities
    note := some "seeded from goal graph", expectedVersion := none }

def seedFromGraph (process : ℕ) (actor : String) : List PromptSeed → PromptProg (List PublishResult)
  | [] => return []
  | seed :: rest => do
    let result ← write tools process (seedDraft seed) actor ⟨false, .seed, none⟩
    let results ← seedFromGraph process actor rest
    return result :: results

end PromptStore

/-! The system: any number of processes, each with any number of calls. -/

inductive PromptCall where
  | create (draft : PromptDraft) (actor : String)
  | publish (draft : PromptDraft) (actor : String)
  | rollback (promptId : PromptId) (toVersion : ℤ) (actor : String) (note : Option String)
  | seedFromGraph (seeds : List PromptSeed) (actor : String)

structure PromptRequest where
  process : ℕ
  call : PromptCall

open PromptStore in
def PromptRequest.body (tools : PromptTools) (c : PromptRequest) : PromptProg (List PublishResult) :=
  match c.call with
  | .create draft actor => ([·]) <$> write tools c.process draft actor ⟨true, .publish, none⟩
  | .publish draft actor => ([·]) <$> write tools c.process draft actor ⟨false, .publish, none⟩
  | .rollback promptId toVersion actor note =>
    ([·]) <$> rollback tools c.process promptId toVersion actor note
  | .seedFromGraph seeds actor => seedFromGraph tools c.process actor seeds

/-- A crashed process loses its mutex. -/
def promptSystem (tools : PromptTools) :
    System PromptOp PromptRes Thrown (List PublishResult) PromptRequest ℕ PromptInput PromptShared where
  body := PromptRequest.body tools
  proc := PromptRequest.process
  exec := promptExec
  admits _ s := some s
  crash p s := { s with running := s.running.filter (·.1 ≠ p) }

abbrev PromptEntry := Entry PromptOp PromptRes PromptRequest PromptInput PromptShared
abbrev PromptHist := Hist PromptOp PromptRes PromptRequest ℕ PromptInput PromptShared
abbrev PromptConfig :=
  Config PromptOp PromptRes Thrown (List PublishResult) PromptRequest ℕ PromptInput PromptShared

end Wazir.Goals.Prompts
