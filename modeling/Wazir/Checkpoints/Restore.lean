import Wazir.Shared.Reload

/-! Checkpoints and portable handoffs in a durable store (`services/checkpointService.ts`,
`services/handoffService.ts`): what is written of them, and what a new service makes of the handoffs
that the store lists. -/

namespace Wazir.Checkpoints

open JsValue

/-! The records. Members that are undefined are left out. -/

/-- An object with members of its own only. -/
structure StoredRecord where
  fields : List (String × JsValue)
  keys : (fields.map Prod.fst).Nodup
  safe : SafeFields fields
  defined : ∀ kv ∈ fields, kv.2.isUndefined = false

def StoredRecord.toJs (r : StoredRecord) : JsValue := .obj r.fields

structure ExecutionCheckpoint extends StoredRecord where
  id : String
  executionId : String
  createdAt : Timestamp
  workspaceRevision : ℕ
  worktreeState : List (String × JsValue)
  filesSnapshot : List (String × String)
  hasId : fields.lookup "id" = some (.str id)
  hasExecutionId : fields.lookup "executionId" = some (.str executionId)
  hasCreatedAt : fields.lookup "createdAt" = some (.date (some createdAt))
  hasRevision : fields.lookup "workspaceRevision" = some (.nat workspaceRevision)
  revisionSafe : workspaceRevision ≤ 9007199254740991
  hasWorktree : fields.lookup "worktreeState" = some (.obj worktreeState)
  hasFiles : worktreeState.lookup "filesSnapshot" =
    some (.obj (filesSnapshot.map fun kv => (kv.1, .str kv.2)))

structure PortableHandoff extends StoredRecord where
  executionId : String
  createdAt : Timestamp
  hasExecutionId : fields.lookup "executionId" = some (.str executionId)
  hasCreatedAt : fields.lookup "createdAt" = some (.str (isoText createdAt))

def envelope (kind digest : String) (record : JsValue) : JsValue :=
  .obj [("version", .nat 1), ("digest", .str digest), (kind, record)]

/-- `new Date(v)` -/
def newDate (parseDate : String → JsDate) : JsValue → JsDate
  | .undefined => none
  | .null => JsDate.ofMs 0
  | .bool b => JsDate.ofMs (if b then 1 else 0)
  | .num (.finite q) => JsDate.ofMs (q.num.tdiv q.den)
  | .num _ => none
  | .str s => parseDate s
  | .date d => d
  | v => parseDate (template v)

/-- `Object.entries(v)` of an object. -/
def entries : JsValue → List (String × JsValue)
  | .obj fields => fields
  | _ => []

/-- What the services use: the comparison of strings, the hash, and the dates of the host. -/
structure RestoreHost where
  localeCompare : String → String → Ordering
  sha256 : String → String
  parseDate : String → JsDate

namespace RestoreHost

variable (host : RestoreHost)

/-! Checkpoints. -/

def computeDigest (checkpoint : JsValue) : String :=
  let files := sortBy (fun a b => host.localeCompare a.1 b.1)
    (entries ((checkpoint.get "worktreeState").get "filesSnapshot"))
  host.sha256 (String.ofList (files.flatMap fun kv => jsonText (.arr [.str kv.1, kv.2])) ++
    "rev:" ++ template (checkpoint.get "workspaceRevision") ++ "\n")

/-! Handoffs. -/

/-- `[...records].sort((a, b) => b.createdAt.localeCompare(a.createdAt))`; a date has no
`localeCompare`, and every list of two or more that holds one is taken to call it. -/
def newestFirst (records : List JsValue) : Except String (List JsValue) :=
  if 2 ≤ records.length ∧ ∃ r ∈ records, (r.get "createdAt").string = none then
    .error "b.createdAt.localeCompare is not a function"
  else
    .ok (sortBy (fun a b => host.localeCompare ((b.get "createdAt").string.getD "")
      ((a.get "createdAt").string.getD "")) records)

end RestoreHost

/-! Portable handoffs. -/

/-- Strip a word, whatever its case; a `-` of the word stands for `[_-]?`. -/
def dropWord : List Char → List Char → Option (List Char)
  | [], cs => some cs
  | '-' :: word, c :: cs => if c = '-' || c = '_' then dropWord word cs else dropWord word (c :: cs)
  | w :: word, c :: cs => if c.toLower = w then dropWord word cs else none
  | _ :: _, [] => none

def secretNames : List (List Char) :=
  ["api-key", "token", "secret", "password", "authorization", "credential"].map String.toList

/-- The rest of `SECRET_PATTERN` after its word. -/
def secretValue (cs : List Char) : Bool :=
  match cs.dropWhile isWhiteSpace with
  | c :: cs =>
    (c = ':' || c = '=') &&
      -- a comma, a semicolon or a quote
      (cs.dropWhile isWhiteSpace).head?.any fun c => c.toNat ∉ [44, 59, 39, 34, 96]
  | [] => false

/-- `SECRET_PATTERN.test(s)` -/
def secretText (s : String) : Bool :=
  s.toList.tails.any fun cs =>
    (secretNames ++ ["bearer".toList]).any fun word => (dropWord word cs).any secretValue

/-- The pattern of the names whose text has to be redacted. -/
def secretKey (key : String) : Bool :=
  secretNames.any fun word => dropWord word key.toList = some []

mutual
def containsUnredactedSecret : JsValue → Bool
  | .str s => secretText s
  | .arr items => secretItems items
  | .obj fields => secretFields fields
  | _ => false
def secretItems : List JsValue → Bool
  | [] => false
  | v :: rest => containsUnredactedSecret v || secretItems rest
def secretFields : List (String × JsValue) → Bool
  | [] => false
  | (k, v) :: rest =>
    (secretKey k && v.string.any fun s => s ≠ "[REDACTED]" && s ≠ "") ||
      containsUnredactedSecret v || secretFields rest
end

mutual
/-- `canonicalizeForDigest`; an invalid date throws. -/
def canonicalizeForDigest : JsValue → Option JsValue
  | .date d => d.map fun t => .str (isoText t)
  | .arr items => (canonicalItems items).map .arr
  | .obj fields => (canonicalFields fields).map fun members =>
    .obj (sortBy (fun a b => compareStrings a.1 b.1) members)
  | v => some v
def canonicalItems : List JsValue → Option (List JsValue)
  | [] => some []
  | v :: rest => do return (← canonicalizeForDigest v) :: (← canonicalItems rest)
def canonicalFields : List (String × JsValue) → Option (List (String × JsValue))
  | [] => some []
  | (k, v) :: rest =>
    if v.isUndefined then canonicalFields rest
    else do return (k, ← canonicalizeForDigest v) :: (← canonicalFields rest)
end

/-- `{ ...v, integrityDigest: '' }` -/
def blankDigest (v : JsValue) : JsValue :=
  .obj ((entries v).filter (fun kv => kv.1 ≠ "integrityDigest") ++ [("integrityDigest", .str "")])

def requiredFields : List String :=
  ["executionId", "taskId", "sourceHarnessId", "checkpointId"]

namespace RestoreHost

variable (host : RestoreHost)

def computePortableHandoffDigest (handoff : JsValue) : Option String :=
  (canonicalizeForDigest (blankDigest handoff)).map fun v =>
    host.sha256 (String.ofList (jsonText v))

def missingField (name : String) : String := "MISSING_FIELD: " ++ name ++ " is required"

/-- `!v || typeof v !== 'string'` -/
def missingText (handoff : JsValue) (name : String) : List String :=
  if (handoff.get name).string.any (· ≠ "") then [] else [missingField name]

def missingRevision (handoff : JsValue) : List String :=
  match handoff.get "workspaceRevision" with
  | .undefined | .null => [missingField "workspaceRevision"]
  | .str "" => [missingField "workspaceRevision"]
  | _ => []

/-- The errors of `verifyPortableHandoff`; none if the digest cannot be computed. -/
def verifyPortableHandoff (handoff : JsValue) : Option (List String) :=
  if !handoff.truthy || !(handoff.isObject || handoff.array.isSome) then
    some ["INVALID_PAYLOAD: handoff must be an object"]
  else do
    let expected ← host.computePortableHandoffDigest handoff
    return (if (handoff.get "schemaVersion").number = some (.finite 1) then [] else
        ["UNSUPPORTED_SCHEMA_VERSION: expected 1, got " ++ template (handoff.get "schemaVersion")]) ++
      requiredFields.flatMap (missingText handoff) ++ missingRevision handoff ++
      missingText handoff "workspaceContentDigest" ++ missingText handoff "integrityDigest" ++
      (if containsUnredactedSecret (blankDigest handoff) then
        ["UNREDACTED_SECRET_DETECTED: portable handoff contains unredacted credential material"]
      else []) ++
      if (handoff.get "integrityDigest").string = some expected then [] else
        ["INTEGRITY_DIGEST_MISMATCH: expected '" ++ expected ++ "', got '" ++
          template (handoff.get "integrityDigest") ++ "'"]

/-- An entry of another version is passed over. -/
def restorePortable (entry : String × JsValue) : Except String (Option JsValue) :=
  let handoff := entry.2.get "handoff"
  if (entry.2.get "version").number = some (.finite 1) && handoff.truthy then
    match host.verifyPortableHandoff handoff with
    | none => .error "Invalid time value"
    | some [] => .ok (some handoff)
    | some errors => .error ("INVALID_PORTABLE_HANDOFF: " ++ entry.1 ++ " (" ++
        "; ".intercalate errors ++ ")")
  else .ok none

end RestoreHost

end Wazir.Checkpoints
