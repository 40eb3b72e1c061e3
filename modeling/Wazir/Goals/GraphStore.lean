import Wazir.Async.Trace
import Wazir.Goals.GraphId
import Wazir.Shared.Strings

/-! The graph store (`graph/store.ts`): one key a revision, claimed by an atomic update that
only succeeds while the key is absent, and a head record that may lag behind. A canonical
definition is kept as the definition it is the text of, and `graphDigest` stands for the hash
of that text. What the YAML importer and the validator find is part of the call. -/

namespace Wazir.Goals

open Wazir.Async

structure StoredRevision where
  format : ℕ
  graphId : GraphId
  projectId : ProjectId
  revision : ℕ
  digest : String
  createdAt : Timestamp
  createdBy : String
  parentRevision : Option ℕ
  canonicalDefinition : GoalGraphDefinition
  deriving DecidableEq

/-- Revision records are the source of truth. -/
structure GoalGraphHead where
  graphId : GraphId
  projectId : ProjectId
  name : String
  latestRevision : ℕ
  latestDigest : String
  createdAt : Timestamp
  createdBy : String
  updatedAt : Timestamp
  deriving DecidableEq

structure GraphShared where
  heads : Table GraphId GoalGraphHead
  revisions : Table (GraphId × ℕ) StoredRevision

def emptyGraphs : GraphShared := ⟨∅, ∅⟩

/-- The closure of `claimRevision`. -/
def claimedRevision (stored : StoredRevision) :
    Option StoredRevision → Except Thrown StoredRevision
  | none => .ok stored
  | some _ =>
    let parent : ℤ := stored.revision - 1
    fail .ledgerConflict ("graph " ++ stored.graphId ++ " revision " ++ toString stored.revision ++
      " already exists (stale parentRevision " ++ toString parent ++ ")")
      [("graphId", .str stored.graphId), ("parentRevision", .num parent)] true

/-- The closure of `advanceHead`. -/
def advancedHead (stored : StoredRevision) (name : String) : Option GoalGraphHead → GoalGraphHead
  | none =>
    { graphId := stored.graphId, projectId := stored.projectId, name := name
      latestRevision := stored.revision, latestDigest := stored.digest
      createdAt := stored.createdAt, createdBy := stored.createdBy, updatedAt := stored.createdAt }
  | some head =>
    if stored.revision ≤ head.latestRevision then head
    else { head with name := name, latestRevision := stored.revision,
                     latestDigest := stored.digest, updatedAt := stored.createdAt }

inductive GraphOp where
  | clock
  | getHead (graphId : GraphId)
  | getRevision (graphId : GraphId) (revision : ℕ)
  | claimRevision (stored : StoredRevision)
  | advanceHead (stored : StoredRevision) (name : String)
  | onRevision (record : GoalGraphRevisionRecord)

abbrev GraphRes : GraphOp → Type
  | .clock => JsDate
  | .getHead _ => Except Thrown (Option GoalGraphHead)
  | .getRevision _ _ => Except Thrown (Option StoredRevision)
  | .claimRevision _ => Except Thrown Unit
  | .advanceHead _ _ => Except Thrown Unit
  | .onRevision _ => Except Thrown Unit

/-- `fault` is the error the store or the hook raises, if it does. -/
structure GraphInput where
  now : JsDate
  fault : Option Thrown

def graphExec (op : GraphOp) (inp : GraphInput) (s : GraphShared) :
    Option (GraphRes op × GraphShared) :=
  match op with
  | .clock => some (inp.now, s)
  | .getHead graphId => some (guarded inp.fault (s.heads.lookup graphId), s)
  | .getRevision graphId revision =>
    some (guarded inp.fault (s.revisions.lookup (graphId, revision)), s)
  | .claimRevision stored =>
    let key := (stored.graphId, stored.revision)
    match guarded inp.fault () with
    | .error e => some (.error e, s)
    | .ok _ =>
      match claimedRevision stored (s.revisions.lookup key) with
      | .error e => some (.error e, s)
      | .ok value => some (.ok (), { s with revisions := s.revisions.insert key value })
  | .advanceHead stored name =>
    match guarded inp.fault () with
    | .error e => some (.error e, s)
    | .ok _ =>
      let head := advancedHead stored name (s.heads.lookup stored.graphId)
      some (.ok (), { s with heads := s.heads.insert stored.graphId head })
  | .onRevision _ => some (guarded inp.fault (), s)

abbrev GraphProg := Prog GraphOp GraphRes Thrown

def graphRevisionKey (graphId : GraphId) (revision : ℕ) : String :=
  "goals/graphs/" ++ graphId ++ "/rev/" ++ padded 8 revision

/-- What an import or a creation replies. -/
structure GoalGraphImportResult where
  record : Option GoalGraphRevisionRecord
  /-- false when an identical definition was already the latest revision. -/
  created : Option Bool
  deriving DecidableEq

namespace GoalGraphStore

variable (graphDigest : GoalGraphDefinition → String)

def checkGraphId (graphId : GraphId) : Except Thrown Unit :=
  if validGraphId graphId then .ok ()
  else fail .validation ("invalid graph id \"" ++ graphId ++ "\"")

def checkActor (actor : String) : Except Thrown Unit :=
  if trim actor = "" ∨ 200 < (utf16 actor).length then
    fail .validation "actor must be a non-empty string"
  else .ok ()

def toRecord (stored : StoredRevision) (key : String) : Except Thrown GoalGraphRevisionRecord :=
  if stored.format ≠ 1 ∨ graphRevisionKey stored.graphId stored.revision ≠ key ∨
      graphDigest stored.canonicalDefinition ≠ stored.digest then
    fail .internal ("graph revision integrity check failed for " ++ key) [("key", .str key)]
  else .ok {
    graphId := stored.graphId, projectId := stored.projectId, revision := stored.revision
    definition := stored.canonicalDefinition, digest := stored.digest
    createdAt := stored.createdAt, createdBy := stored.createdBy
    parentRevision := stored.parentRevision }

def readStored (graphId : GraphId) (revision : ℕ) : GraphProg (Option StoredRevision) :=
  .call (.getRevision graphId revision) .resume

def getHead (graphId : GraphId) : GraphProg (Option GoalGraphHead) :=
  .call (.getHead graphId) .resume

/-- Where the model leaves a probing loop that has used up its rounds. -/
def outOfRounds : Thrown := .error "still probing"

/-- The probing loop, for so many rounds. -/
def rollForward (graphId : GraphId) : ℕ → ℕ → GraphProg ℕ
  | 0, _ => .raise outOfRounds
  | rounds + 1, latest => do
    match ← readStored graphId (latest + 1) with
    | some _ => rollForward graphId rounds (latest + 1)
    | none => return latest

/-- Latest revision: head pointer, rolled forward past any revision written before a crash
left the head stale. -/
def latestRevisionOf (rounds : ℕ) (graphId : GraphId) (head : Option GoalGraphHead) :
    GraphProg ℕ :=
  rollForward graphId rounds ((head.map GoalGraphHead.latestRevision).getD 0)

def writeRevision (graphId : GraphId) (projectId : ProjectId) (definition : GoalGraphDefinition)
    (actor : String) (revision : ℕ) (parentRevision : Option ℕ) :
    GraphProg GoalGraphRevisionRecord := do
  let now ← (Prog.call .clock .ret : GraphProg JsDate)
  let createdAt ← (.resume now.toISOString : GraphProg Timestamp)
  let stored : StoredRevision :=
    { format := 1, graphId := graphId, projectId := projectId, revision := revision
      digest := graphDigest definition, createdAt := createdAt, createdBy := actor
      parentRevision := parentRevision, canonicalDefinition := definition }
  (.call (.claimRevision stored) .resume : GraphProg Unit)
  (.call (.advanceHead stored definition.name) .resume : GraphProg Unit)
  let record ← (.resume (toRecord graphDigest stored (graphRevisionKey graphId revision)) :
    GraphProg GoalGraphRevisionRecord)
  -- notification failures never undo a durable revision
  .call (.onRevision record) fun _ => .ret record

/-- The revision asked for, or the latest. -/
def revisionOr (rounds : ℕ) (graphId : GraphId) : Option ℤ → GraphProg ℤ
  | some revision => return revision
  | none => do
    let head ← getHead graphId
    let latest ← latestRevisionOf rounds graphId head
    return (latest : ℤ)

def getRevision (rounds : ℕ) (graphId : GraphId) (revision : Option ℤ) :
    GraphProg (Option GoalGraphRevisionRecord) := do
  (.resume (checkGraphId graphId) : GraphProg Unit)
  let rev ← revisionOr rounds graphId revision
  if revision = none ∧ rev = 0 then return none
  else if 9007199254740991 < rev ∨ rev < 1 then
    .resume (fail .validation "revision must be a positive integer")
  else
    match ← readStored graphId rev.toNat with
    | none => return none
    | some stored =>
      let record ← (.resume (toRecord graphDigest stored (graphRevisionKey graphId rev.toNat)) :
        GraphProg GoalGraphRevisionRecord)
      return some record

/-- `parsed` is the definition the importer read from the text, when it is valid. -/
def importYaml (rounds : ℕ) (projectId : ProjectId) (yaml : String)
    (parsed : Option GoalGraphDefinition) (actor : String) : GraphProg GoalGraphImportResult := do
  if !validProjectId projectId then
    .resume (fail .validation ("invalid project id \"" ++ projectId ++ "\""))
  else
    (.resume (checkActor actor) : GraphProg Unit)
    if trim yaml = "" then .resume (fail .validation "yaml must be a non-empty string")
    else match parsed with
    | none => return ⟨none, none⟩
    | some definition =>
      let graphId := deriveGraphId projectId definition.name
      let head ← getHead graphId
      let latest ← latestRevisionOf rounds graphId head
      if 0 < latest then
        let current ← getRevision graphDigest rounds graphId (some (latest : ℤ))
        match current.filter fun record => record.digest = graphDigest definition with
        | some same => return ⟨some same, some false⟩
        | none =>
          let record ← writeRevision graphDigest graphId projectId definition actor (latest + 1)
            (some latest)
          return ⟨some record, some true⟩
      else
        let record ← writeRevision graphDigest graphId projectId definition actor 1 none
        return ⟨some record, some true⟩

/-- `issue` is the first issue `validateGoalGraph` finds. -/
def createRevision (rounds : ℕ) (graphId : GraphId) (definition : GoalGraphDefinition)
    (issue : Option String) (actor : String) (parentRevision : ℤ) :
    GraphProg GoalGraphRevisionRecord := do
  (.resume (checkGraphId graphId) : GraphProg Unit)
  (.resume (checkActor actor) : GraphProg Unit)
  if 9007199254740991 < parentRevision ∨ parentRevision < 1 then
    .resume (fail .validation "parentRevision must be a positive integer")
  else match issue with
  | some message => .resume (fail .validation ("invalid goal graph: " ++ message))
  | none =>
    let head ← getHead graphId
    let latest ← latestRevisionOf rounds graphId head
    if latest = 0 then .resume (fail .notFound ("graph " ++ graphId ++ " not found"))
    else if parentRevision ≠ latest then
      .resume (fail .ledgerConflict ("stale parentRevision " ++ toString parentRevision ++
        "; latest revision of " ++ graphId ++ " is " ++ toString latest)
        [("graphId", .str graphId), ("parentRevision", .num parentRevision),
          ("latestRevision", .num latest)] true)
    else
      let parent ← readStored graphId latest
      match (head.map GoalGraphHead.projectId).or (parent.map StoredRevision.projectId) with
      | none =>
        .raise (.error "Cannot read properties of undefined (reading 'projectId')")
      | some projectId =>
        writeRevision graphDigest graphId projectId definition actor (latest + 1) (some latest)

end GoalGraphStore

/-! The system: any number of clients, each call with the rounds its probing loops take. -/

inductive GraphCall where
  | importYaml (projectId : ProjectId) (yaml : String) (parsed : Option GoalGraphDefinition)
      (actor : String)
  | createRevision (graphId : GraphId) (definition : GoalGraphDefinition) (issue : Option String)
      (actor : String) (parentRevision : ℤ)
  | getRevision (graphId : GraphId) (revision : Option ℤ)

structure GraphRequest where
  process : ℕ
  rounds : ℕ
  call : GraphCall

inductive GraphReply where
  | imported (result : GoalGraphImportResult)
  | created (record : GoalGraphRevisionRecord)
  | found (record : Option GoalGraphRevisionRecord)
  deriving DecidableEq

open GoalGraphStore in
def GraphRequest.body (graphDigest : GoalGraphDefinition → String) (c : GraphRequest) :
    GraphProg GraphReply :=
  match c.call with
  | .importYaml projectId yaml parsed actor =>
    GraphReply.imported <$> importYaml graphDigest c.rounds projectId yaml parsed actor
  | .createRevision graphId definition issue actor parentRevision =>
    GraphReply.created <$>
      createRevision graphDigest c.rounds graphId definition issue actor parentRevision
  | .getRevision graphId revision =>
    GraphReply.found <$> getRevision graphDigest c.rounds graphId revision

def graphSystem (graphDigest : GoalGraphDefinition → String) :
    System GraphOp GraphRes Thrown GraphReply GraphRequest ℕ GraphInput GraphShared where
  body := GraphRequest.body graphDigest
  proc := GraphRequest.process
  exec := graphExec
  admits _ s := some s
  crash _ s := s

abbrev GraphEntry := Entry GraphOp GraphRes GraphRequest GraphInput GraphShared
abbrev GraphHist := Hist GraphOp GraphRes GraphRequest ℕ GraphInput GraphShared
abbrev GraphConfig := Config GraphOp GraphRes Thrown GraphReply GraphRequest ℕ GraphInput GraphShared

end Wazir.Goals
