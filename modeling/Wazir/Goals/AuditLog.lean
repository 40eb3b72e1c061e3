import Wazir.Goals.Contracts
import Wazir.Shared.JsValue

/-! The goal audit log (`governance/index.ts`): each record holds the digest of a canonical text of
its number, time, event and predecessor's digest. The digest is taken over the record in memory
and checked over what the store gives back. -/

namespace Wazir.Goals

/-- The entries of a store, in the order their keys were first written. -/
abbrev AuditStore := List (String × JsValue)

def AuditStore.put (s : AuditStore) (key : String) (value : JsValue) : AuditStore :=
  if s.any fun kv => kv.1 = key then s.map fun kv => if kv.1 = key then (key, value) else kv
  else s ++ [(key, value)]

/-! Redaction. -/

def sensitiveWords : List String :=
  ["secret", "password", "passwd", "token", "apikey", "api_key", "api-key", "privatekey",
    "private_key", "private-key", "accesskey", "access_key", "access-key", "clientsecret",
    "client_secret", "client-secret", "authtoken", "auth_token", "auth-token", "refreshtoken",
    "refresh_token", "refresh-token", "bearer", "credential", "connectionstring",
    "connection_string", "connection-string", "databaseurl", "database_url", "database-url"]

def keySeparator (c : Char) : Bool := c = '_' || c = '-'

/-- A sensitive word that ends at a separator or at the end stands at the front. -/
def sensitiveFront (cs : List Char) : Bool :=
  sensitiveWords.any fun word => word.toList.isPrefixOf cs &&
    (cs.drop word.length).head?.all keySeparator

def sensitiveFrom (atStart : Bool) : List Char → Bool
  | [] => false
  | c :: rest => atStart && sensitiveFront (c :: rest) || sensitiveFrom (keySeparator c) rest

/-- `SENSITIVE_KEY_RE` -/
def sensitiveKey (key : String) : Bool := sensitiveFrom true (key.toList.map Char.toLower)

section Records

-- the redaction of one string, the collation of keys, and the hash
variable (sanitizeUntrustedOutput : String → String) (localeCompare : String → String → Ordering)
  (sha256 : String → String)

mutual
def sanitizeAuditValue : JsValue → JsValue
  | .str s => .str (sanitizeUntrustedOutput s)
  | .arr items => .arr (sanitizeItems items)
  | .obj fields => .obj (sanitizeFields fields)
  | v => v
def sanitizeItems : List JsValue → List JsValue
  | [] => []
  | v :: rest => sanitizeAuditValue v :: sanitizeItems rest
def sanitizeFields : List (String × JsValue) → List (String × JsValue)
  | [] => []
  | (k, v) :: rest =>
    if k ∈ unsafeKeys then sanitizeFields rest
    else if sensitiveKey k && v.string.any (· ≠ "") then (k, .str "[REDACTED]") :: sanitizeFields rest
    else (k, sanitizeAuditValue v) :: sanitizeFields rest
end

mutual
/-- Undefined members of an array leave an empty piece; a `Date` has no entries. -/
def canonicalJson : JsValue → List Char
  | .undefined => []
  | .null => "null".toList
  | .bool b => (toString b).toList
  | .num n => numberText n
  | .str s => quoted s
  | .date _ => ['\x7b', '\x7d']
  | .arr items => '[' :: (commaJoin (canonicalItems items) ++ [']'])
  | .obj fields => '\x7b' :: (commaJoin
      ((sortBy (fun a b => localeCompare a.1 b.1) (canonicalFields fields)).map Prod.snd) ++ ['\x7d'])
def canonicalItems : List JsValue → List (List Char)
  | [] => []
  | v :: rest => canonicalJson v :: canonicalItems rest
/-- The entries that are not undefined, each with its piece of text. -/
def canonicalFields : List (String × JsValue) → List (String × List Char)
  | [] => []
  | (k, v) :: rest =>
    if v.isUndefined then canonicalFields rest
    else (k, quoted k ++ ':' :: canonicalJson v) :: canonicalFields rest
end

/-- What the digest is taken of. -/
def digested (seq recordedAt prevDigest event : JsValue) : JsValue :=
  .obj [("seq", seq), ("recordedAt", recordedAt), ("prevDigest", prevDigest), ("event", event)]

def computeAuditDigest (seq recordedAt prevDigest event : JsValue) : String :=
  sha256 (String.ofList (canonicalJson localeCompare (digested seq recordedAt prevDigest event)))

structure RawAuditEvent where
  seq : Option JsNumber
  type : String
  runId : Option String
  targetId : Option String
  attemptId : Option String
  executionId : Option String
  timestamp : Option String
  data : JsValue

def optionalField (key : String) (value : Option String) : List (String × JsValue) :=
  (value.map fun s => (key, JsValue.str s)).toList

/-- The event before redaction. -/
def RawAuditEvent.toJs (raw : RawAuditEvent) (seqNumber : ℕ) (recordedAt : String) : JsValue :=
  let seq := match raw.seq with
    | some (.finite q) => JsNumber.finite q
    | _ => .finite seqNumber
  let data := match raw.data with
    | .undefined | .null => .obj []
    | data => data
  .obj ([("seq", .num seq), ("type", .str raw.type)] ++ optionalField "runId" raw.runId ++
    optionalField "targetId" raw.targetId ++ optionalField "attemptId" raw.attemptId ++
    optionalField "executionId" raw.executionId ++
    [("timestamp", .str (raw.timestamp.getD recordedAt)),
      ("data", sanitizeAuditValue sanitizeUntrustedOutput data)])

def sanitizedEvent (raw : RawAuditEvent) (seqNumber : ℕ) (recordedAt : String) : JsValue :=
  sanitizeAuditValue sanitizeUntrustedOutput (raw.toJs sanitizeUntrustedOutput seqNumber recordedAt)

/-- `String(seqNumber).padStart(10, '0')` -/
def auditSeqKey (seqNumber : ℕ) : String := padded 10 seqNumber

def auditRecord (seqNumber : ℕ) (recordedAt : String) (prevDigest event : JsValue) : JsValue :=
  .obj [("seq", .str (auditSeqKey seqNumber)), ("seqNumber", .nat seqNumber),
    ("recordedAt", .str recordedAt), ("event", event), ("prevDigest", prevDigest),
    ("digest", .str (computeAuditDigest localeCompare sha256 (.str (auditSeqKey seqNumber))
      (.str recordedAt) prevDigest event))]

/-- The number of a record; JSON knows finite numbers only. -/
def seqNumberOf (record : JsValue) : Option ℕ :=
  (record.get "seqNumber").finiteNumber.map fun q => q.num.toNat

def bySeqNumber (a b : JsValue) : Ordering :=
  compare ((seqNumberOf a).getD 0) ((seqNumberOf b).getD 0)

/-- The record that `appendAuditInternal` makes of what it lists. -/
def nextRecord (listed : List JsValue) (recordedAt : String) (raw : RawAuditEvent) :
    ℕ × JsValue :=
  let last := (sortBy bySeqNumber (listed.filter fun v => (seqNumberOf v).isSome)).getLast?
  let seqNumber := (last.bind seqNumberOf).getD 0 + 1
  let digest := (last.map fun v => v.get "digest").getD .undefined
  let prevDigest := match digest with
    | .undefined | .null => .str "GENESIS"
    | digest => digest
  (seqNumber, auditRecord localeCompare sha256 seqNumber recordedAt prevDigest
    (sanitizedEvent sanitizeUntrustedOutput raw seqNumber recordedAt))

/-- What verification finds. -/
structure ChainReport where
  valid : Bool
  count : ℕ
  brokenAtSeq : JsValue
  reason : Option String

def ChainReport.broken (count : ℕ) (record : JsValue) (reason : String) : ChainReport :=
  ⟨false, count, record.get "seq", some reason⟩

/-- `===` where it can hold of values that JSON knows. -/
def strictEqual : JsValue → JsValue → Bool
  | .undefined, .undefined => true
  | .null, .null => true
  | .bool a, .bool b => a = b
  | .num (.finite a), .num (.finite b) => a = b
  | .str a, .str b => a = b
  | _, _ => false

def verifyFrom (count : ℕ) : ℕ → JsValue → List JsValue → ChainReport
  | _, _, [] => ⟨true, count, .undefined, none⟩
  | i, expectedPrev, record :: rest =>
    let seq := (record.get "seq").template
    if seqNumberOf record ≠ some (i + 1) then
      .broken count record ("expected sequence number " ++ toString (i + 1) ++ " but found " ++
        (record.get "seqNumber").template)
    else if !strictEqual (record.get "prevDigest") expectedPrev then
      .broken count record ("prevDigest mismatch at seq " ++ seq)
    else if !strictEqual (.str (computeAuditDigest localeCompare sha256 (record.get "seq")
        (record.get "recordedAt") (record.get "prevDigest") (record.get "event")))
        (record.get "digest") then
      .broken count record ("digest mismatch at seq " ++ seq)
    else verifyFrom count (i + 1) (record.get "digest") rest

/-- The records among what a store lists, in order. -/
def auditRecords (listed : List JsValue) : List JsValue :=
  sortBy bySeqNumber
    (listed.filter fun v => (v.get "event").truthy && (seqNumberOf v).isSome)

def verifyAuditChain (listed : List JsValue) : ChainReport :=
  let records := auditRecords listed
  verifyFrom localeCompare sha256 records.length 0 (.str "GENESIS") records

end Records

end Wazir.Goals
