import Wazir.Checkpoints.Workspace
import Wazir.Shared.Calls
import Wazir.Shared.JsArithmetic
import Wazir.Shared.KeyedMaps

/-! The transfer of a checkpoint between workers (`services/checkpointTransportService.ts`): it is
packaged as a manifest and blobs, registered, uploaded, committed, fetched and put together again. The
writes to its store are taken to go through. -/

namespace Wazir.Checkpoints.Transfer

open JsValue

inductive SecretScrubPolicy where
  | redact
  | reject

/-! The records. -/

/-- The members of a checkpoint that travel as they are. -/
structure CheckpointMembers where
  id : String
  executionId : String
  parentCheckpointId : JsValue
  workspaceRevision : JsNumber
  workspaceRoot : String
  /-- `worktreeState` without its `filesSnapshot`. -/
  worktreeState : List (String × JsValue)
  contextSnapshot : JsValue
  planState : JsValue
  verificationState : JsValue
  provenanceCursor : JsValue
  evidenceReferences : JsValue
  description : JsValue
  metadata : JsValue

structure Checkpoint (Content : Type) extends CheckpointMembers where
  createdAt : JsDate
  filesSnapshot : Option (KeyedMap Content)

structure CheckpointEnvelope extends CheckpointMembers where
  createdAt : String

structure Manifest where
  checkpointId : String
  executionId : String
  workspaceRevision : JsNumber
  sourceWorkerId : String
  targetWorkerId : Option String
  snapshotDigest : String
  blobHashes : KeyedMap String
  totalBytes : JsNumber
  createdAt : String
  expiresAt : String
  authSignature : Option String
  checkpointEnvelope : CheckpointEnvelope
  redactedSecretsCount : Option ℕ

structure Receipt where
  receiptId : String
  checkpointId : String
  executionId : String
  workspaceRevision : JsNumber
  sourceWorkerId : String
  targetWorkerId : Option String
  snapshotDigest : String
  totalBytes : ℕ
  blobCount : ℕ
  deduplicatedBlobCount : ℕ
  redactedSecretsCount : ℕ
  committedAt : String
  downloadedByWorkerId : Option String
  downloadedAt : Option String

structure Bundle (Content : Type) where
  manifest : Manifest
  blobs : KeyedMap Content
  receipt : Receipt

structure PackageOptions where
  sourceWorkerId : String
  targetWorkerId : Option String
  ttlMs : Option JsNumber
  secretPolicy : Option SecretScrubPolicy
  transportSecret : Option String

structure Scrubbed (Content : Type) where
  checkpoint : Checkpoint Content
  redactedCount : ℕ
  findings : List String

structure Package (Content : Type) where
  manifest : Manifest
  blobs : KeyedMap Content
  scrubbedCheckpoint : Checkpoint Content
  redactedSecretsCount : ℕ
  secretFindings : List String

inductive BearerTokens where
  | list (tokens : List String)
  | verifier (allowed : String → Bool)

structure Options where
  transportSecret : Option String
  allowedBearerTokens : Option BearerTokens
  requireAuth : Option Bool
  secretPolicy : SecretScrubPolicy
  maxCheckpointBytes : JsNumber
  maxFileBytes : JsNumber
  maxStoredCheckpoints : JsNumber
  defaultTtlMs : JsNumber

/-- `StoredManifestEntry` -/
structure Entry where
  manifest : Manifest
  committed : Bool
  deduplicatedBlobCount : ℕ
  committedAtMs : Option ℤ
  receipt : Option Receipt

/-- `/^[a-f0-9]{64}$/i` -/
def isBlobHash (s : String) : Bool :=
  s.length = 64 && s.toList.all fun c => (hexDigit c).isSome

theorem toLower_toLower (s : String) : s.toLower.toLower = s.toLower := by
  have hchar : ∀ c : Char, c.toLower.toLower = c.toLower := by
    intro c
    grind [Char.toLower]
  apply String.toList_inj.mp
  simp [String.toLower, Function.comp_def, hchar]

/-- The maps of a service. What it writes to its store is never read again. -/
structure Service (Content : Type) where
  manifests : KeyedMap Entry
  blobs : KeyedMap Content
  lower : ∀ key ∈ blobs.keys, key.toLower = key

/-- What Node computes: the hashes of a content and of a text, the length of a content in UTF-8, the
text `JSON.stringify([path, content])`, and the dates. Half a surrogate pair is a content too, with
the bytes of U+FFFD. -/
structure Host (Content : Type) where
  computeBlobHash : Content → String
  byteLength : Content → ℕ
  entryText : String → Content → String
  sha256 : String → String
  /-- Of a secret and a text. -/
  hmac : String → String → String
  localeCompare : String → String → Ordering
  parseDate : String → JsDate
  blobHash_hex : ∀ c, isBlobHash (computeBlobHash c) = true
  blobHash_lower : ∀ c, (computeBlobHash c).toLower = computeBlobHash c
  parseDate_iso : ∀ t, parseDate (isoText t) = some t

variable {Content : Type}

def Checkpoint.files (c : Checkpoint Content) : KeyedMap Content := c.filesSnapshot.getD KeyedMap.empty

/-- `validateSafeCheckpointPath` -/
def validateSafeCheckpointPath (relative : String) : Except String Unit :=
  throwIf (relative = "" || '\\' ∈ relative.toList || '\x00' ∈ relative.toList ||
      relative.toList.head? = some '/' || windowsAbsolute relative.toList ||
      (parts relative).any unsafePart) ("UNSAFE_CHECKPOINT_PATH: " ++ relative)

namespace Host

variable (host : Host Content)

def computeSnapshotDigest (files : KeyedMap Content) (workspaceRevision : JsNumber) : String :=
  let sorted := sortBy (fun a b => host.localeCompare a.1 b.1) files.ownEntries
  host.sha256 (String.join (sorted.map fun kv => host.entryText kv.1 kv.2) ++ "rev:" ++
    template (.num workspaceRevision) ++ "\n")

def canonicalManifestPayload (m : Manifest) : String :=
  let sortedBlobs := sortBy (fun a b => host.localeCompare a.1 b.1) m.blobHashes.ownEntries
  String.ofList (jsonText (.obj [
    ("checkpointId", .str m.checkpointId),
    ("executionId", .str m.executionId),
    ("workspaceRevision", .num m.workspaceRevision),
    ("sourceWorkerId", .str m.sourceWorkerId),
    ("targetWorkerId", (m.targetWorkerId.map JsValue.str).getD .null),
    ("snapshotDigest", .str m.snapshotDigest),
    ("blobHashes", .arr (sortedBlobs.map fun kv => .arr [.str kv.1, .str kv.2])),
    ("totalBytes", .num m.totalBytes),
    ("createdAt", .str m.createdAt),
    ("expiresAt", .str m.expiresAt)]))

def signCheckpointManifest (m : Manifest) (secret : String) : String :=
  host.hmac secret (host.canonicalManifestPayload m)

/-- `safeTokenEquals` -/
def safeTokenEquals (a b : String) : Bool := host.sha256 a = host.sha256 b

def verifyCheckpointManifestSignature (m : Manifest) (secret : String) : Bool :=
  m.authSignature.any fun signature => signature ≠ "" &&
    host.safeTokenEquals (host.signCheckpointManifest m secret) signature

end Host

/-- `authToken.replace(/^Bearer\s+/i, '').trim()` -/
def rawToken (authToken : String) : String :=
  let rest := authToken.toList.drop 6
  if (authToken.toList.take 6).map Char.toLower = "bearer".toList ∧ rest.head?.any isWhiteSpace then
    trim (String.ofList rest)
  else trim authToken

/-- A string that counts as true. -/
def given (s : Option String) : Option String := s.filter fun s => s ≠ ""

namespace Options

variable (opts : Options)

/-- `requireAuth` of the service. -/
def authRequired : Bool :=
  opts.requireAuth.getD ((given opts.transportSecret).isSome || opts.allowedBearerTokens.isSome)

variable (host : Host Content)

def tokenAllowed (token : String) : Bool :=
  (given opts.transportSecret).any (host.safeTokenEquals token) ||
    match opts.allowedBearerTokens with
    | some (.verifier allowed) => allowed token
    | some (.list tokens) => tokens.any (host.safeTokenEquals token)
    | none => false

/-- A manifest that is signed has to be signed with the secret of the service, if there is one. -/
def badSignature (m : Manifest) : Bool :=
  (given m.authSignature).isSome && (given opts.transportSecret).any fun secret =>
    !host.verifyCheckpointManifestSignature m secret

def verifyAuthentication (authToken : Option String) (manifest : Option Manifest) :
    Except String Unit := do
  throwIf (manifest.any (opts.badSignature host))
    "UNAUTHORIZED_CHECKPOINT_TRANSFER: Invalid manifest HMAC signature"
  if opts.authRequired then
    match given (authToken.map rawToken) with
    | some token =>
      throwIf (!opts.tokenAllowed host token) "UNAUTHORIZED_CHECKPOINT_TRANSFER: Invalid bearer token"
    | none =>
      throwIf (!manifest.any fun m => (given opts.transportSecret).any
          (host.verifyCheckpointManifestSignature m))
        "UNAUTHORIZED_CHECKPOINT_TRANSFER: Missing authentication credentials"

end Options

/-! Packaging. -/

/-- The text of a number of bytes. -/
def bytesText (n : JsNumber) : String := template (.num n) ++ " bytes"

def fileTooLarge (subject : String) : String := "CHECKPOINT_FILE_TOO_LARGE: " ++ subject

def sizeLimit (subject : String) (total max : JsNumber) : String :=
  "CHECKPOINT_SIZE_LIMIT_EXCEEDED: " ++ subject ++ " (" ++ bytesText total ++
    ") exceeds maxCheckpointBytes (" ++ bytesText max ++ ")"

structure Packed (Content : Type) where
  blobHashes : KeyedMap String
  blobs : KeyedMap Content
  totalBytes : ℕ

/-- `new Date(ms).toISOString()` -/
def isoOf (d : JsDate) : Except String String :=
  match d with
  | some t => .ok (isoText t)
  | none => .error "Invalid time value"

/-- `new Date(now + ttlMs)` -/
def expiry (now : Timestamp) : JsNumber → JsDate
  | .finite ttl => JsDate.ofMs ((now.1 + ttl).num.tdiv (now.1 + ttl).den)
  | _ => none

section Package

variable (host : Host Content) (opts : Options)

def packFile (id : String) (packed : Packed Content) (file : String × Content) :
    Except String (Packed Content) := do
  validateSafeCheckpointPath file.1
  let fileBytes := host.byteLength file.2
  throwIf (opts.maxFileBytes.lt (.finite fileBytes))
    (fileTooLarge ("File '" ++ file.1 ++ "' (" ++ bytesText (.finite fileBytes) ++
      ") exceeds maxFileBytes (" ++ bytesText opts.maxFileBytes ++ ")"))
  let totalBytes := packed.totalBytes + fileBytes
  throwIf (opts.maxCheckpointBytes.lt (.finite totalBytes))
    (sizeLimit ("Checkpoint '" ++ id ++ "'") (.finite totalBytes) opts.maxCheckpointBytes)
  let hash := host.computeBlobHash file.2
  return ⟨packed.blobHashes.assign file.1 hash, packed.blobs.assign hash file.2, totalBytes⟩

/-- `packageCheckpoint`, whatever the scrubbing of secrets is. -/
def packageCheckpoint
    (scrubCheckpointSecrets : Checkpoint Content → SecretScrubPolicy → Except String (Scrubbed Content))
    (checkpoint : Checkpoint Content) (options : PackageOptions) (now : Timestamp) :
    Except String (Package Content) := do
  throwIf (options.sourceWorkerId = "") "INVALID_CHECKPOINT_MANIFEST: sourceWorkerId is required"
  let scrubbed ← scrubCheckpointSecrets checkpoint (options.secretPolicy.getD opts.secretPolicy)
  let c := scrubbed.checkpoint
  let packed ← c.files.ownEntries.foldlM (packFile host opts checkpoint.id)
    ⟨KeyedMap.empty, KeyedMap.empty, 0⟩
  let createdAt ← isoOf c.createdAt
  let expiresAt ← isoOf (expiry now (options.ttlMs.getD opts.defaultTtlMs))
  let manifest : Manifest := {
    checkpointId := c.id
    executionId := c.executionId
    workspaceRevision := c.workspaceRevision
    sourceWorkerId := options.sourceWorkerId
    targetWorkerId := options.targetWorkerId
    snapshotDigest := host.computeSnapshotDigest c.files c.workspaceRevision
    blobHashes := packed.blobHashes
    totalBytes := .finite packed.totalBytes
    createdAt
    expiresAt
    authSignature := none
    checkpointEnvelope := { c.toCheckpointMembers with createdAt }
    redactedSecretsCount := some scrubbed.redactedCount }
  return {
    manifest := { manifest with
      authSignature := (given (options.transportSecret.or opts.transportSecret)).map
        (host.signCheckpointManifest manifest) }
    blobs := packed.blobs
    scrubbedCheckpoint := c
    redactedSecretsCount := scrubbed.redactedCount
    secretFindings := scrubbed.findings }

end Package

/-! The control plane. -/

structure Registration where
  checkpointId : String
  missingBlobHashes : List String
  deduplicatedBlobHashes : List String
  alreadyCommitted : Bool

structure BlobReceipt where
  blobHash : String
  sizeBytes : ℕ
  deduplicated : Bool

def Manifest.uniqueHashes (m : Manifest) : List String := m.blobHashes.ownValues.eraseDups

/-- `Number.isSafeInteger(n) && n >= 0` -/
def isRevision (n : JsNumber) : Bool := ((JsValue.num n).safeInteger).any fun i => 0 ≤ i

def Entry.commit (entry : Entry) (receipt : Receipt) (now : Timestamp) : Entry :=
  { entry with committed := true, committedAtMs := some now.1, receipt := some receipt }

namespace Service

variable (host : Host Content) (opts : Options) (s : Service Content)

def missingBlobs (m : Manifest) : List String := m.uniqueHashes.filter fun hash => !s.blobs.has hash

/-- Whether a manifest has expired, or does not say when it does. -/
def expired (m : Manifest) (now : Timestamp) : Bool :=
  (host.parseDate m.expiresAt).all fun t => t.1 ≤ now.1

def checkManifest (m : Manifest) (now : Timestamp) : Except String Unit := do
  throwIf (m.checkpointId = "" || m.executionId = "" || m.sourceWorkerId = "")
    "INVALID_CHECKPOINT_MANIFEST: checkpointId, executionId, and sourceWorkerId are required"
  throwIf (!isRevision m.workspaceRevision)
    "INVALID_CHECKPOINT_MANIFEST: workspaceRevision must be a non-negative integer"
  throwIf (expired host m now)
    ("CHECKPOINT_MANIFEST_EXPIRED: Manifest for '" ++ m.checkpointId ++ "' has expired")
  throwIf (opts.maxCheckpointBytes.lt m.totalBytes)
    (sizeLimit ("Manifest '" ++ m.checkpointId ++ "'") m.totalBytes opts.maxCheckpointBytes)
  m.blobHashes.ownEntries.forM fun file => do
    validateSafeCheckpointPath file.1
    throwIf (!isBlobHash file.2)
      ("INVALID_BLOB_HASH: Invalid SHA-256 hash '" ++ file.2 ++ "' for '" ++ file.1 ++ "'")

/-- Whether the id of a manifest has been committed. -/
def isCommitted (checkpointId : String) : Bool := (s.manifests.get checkpointId).any Entry.committed

/-- The service with an entry in place of the old one. -/
def putEntry (checkpointId : String) (entry : Entry) : Service Content :=
  { s with manifests := s.manifests.set checkpointId entry }

def register (m : Manifest) : Registration × Service Content :=
  let deduplicated := m.uniqueHashes.filter s.blobs.has
  if s.isCommitted m.checkpointId then (⟨m.checkpointId, [], m.uniqueHashes, true⟩, s)
  else
    let entry : Entry := {
      manifest := m
      committed := false
      deduplicatedBlobCount := max deduplicated.length
        (((s.manifests.get m.checkpointId).map Entry.deduplicatedBlobCount).getD 0)
      committedAtMs := none
      receipt := none }
    (⟨m.checkpointId, s.missingBlobs m, deduplicated, false⟩,
      s.putEntry m.checkpointId entry)

/-- `registerManifest` -/
def registerManifest (m : Manifest) (authToken : Option String) (now : Timestamp) :
    Call (Service Content) Registration := do
  Call.lift (opts.verifyAuthentication host authToken (some m))
  Call.lift (checkManifest host opts m now)
  Call.act fun s => s.register m

def checkBlob (blobHash : String) (content : Content) : Except String Unit := do
  throwIf (!isBlobHash blobHash)
    ("INVALID_BLOB_HASH: '" ++ blobHash ++ "' is not a valid SHA-256 hex digest")
  throwIf (opts.maxFileBytes.lt (.finite (host.byteLength content)))
    (fileTooLarge ("Blob '" ++ blobHash ++ "' (" ++ bytesText (.finite (host.byteLength content)) ++
      ") exceeds maxFileBytes (" ++ bytesText opts.maxFileBytes ++ ")"))
  throwIf (host.computeBlobHash content ≠ blobHash.toLower)
    ("CHECKPOINT_BLOB_HASH_MISMATCH: Expected SHA-256 '" ++ blobHash ++ "', got '" ++
      host.computeBlobHash content ++ "'")

/-- The service with a blob, if it has none of that hash. -/
def upload (blobHash : String) (content : Content) : Service Content :=
  if s.blobs.has blobHash.toLower then s
  else { s with
    blobs := s.blobs.set blobHash.toLower content
    lower := fun key hkey => ((s.blobs.mem_keys_set).mp hkey).elim
      (fun heq => heq ▸ toLower_toLower blobHash) (s.lower key) }

def putBlob (blobHash : String) (content : Content) (authToken : Option String) :
    Call (Service Content) BlobReceipt := do
  Call.lift (opts.verifyAuthentication host authToken none)
  Call.lift (checkBlob host opts blobHash content)
  Call.act fun s => (⟨blobHash.toLower, host.byteLength content, s.blobs.has blobHash.toLower⟩,
    s.upload blobHash content)

/-! Retention. -/

/-- Whether a manifest names a blob. -/
def references (manifests : KeyedMap Entry) (hash : String) : Bool :=
  manifests.entries.any fun kv => kv.2.manifest.blobHashes.ownValues.any fun h => h.toLower = hash

/-- `garbageCollectUnreferencedBlobs` -/
def garbageCollect : Service Content where
  manifests := s.manifests
  blobs := s.blobs.filter fun kv => references s.manifests kv.1
  lower := fun key hkey => s.lower key (s.blobs.keys_filter hkey)

/-- `pruneExpired` -/
def pruneExpired (now : Timestamp) : Service Content :=
  garbageCollect { s with
    manifests := s.manifests.filter fun kv => !expired host kv.2.manifest now }

/-- The ids of what is committed, the oldest first. -/
def committedIds (manifests : KeyedMap Entry) : List String :=
  (sortBy (fun a b : String × Entry => compare (a.2.committedAtMs.getD 0) (b.2.committedAtMs.getD 0))
    (manifests.entries.filter fun kv => kv.2.committed)).map Prod.fst

/-- What goes while there is more than the limit, and what stays; the shift of an empty list throws. -/
def evict (max : JsNumber) : List String → List String × Except String (List String)
  | [] => ([], if max.lt .zero then .error "undefined is not iterable" else .ok [])
  | id :: rest =>
    if max.lt (.finite (rest.length + 1)) then
      let (gone, kept) := evict max rest
      (id :: gone, kept)
    else ([], .ok (id :: rest))

def deleteManifests (ids : List String) : Service Content :=
  { s with manifests := ids.foldl KeyedMap.delete s.manifests }

def enforceRetentionLimits : Call (Service Content) Unit := fun s =>
  let (gone, kept) := evict opts.maxStoredCheckpoints (committedIds s.manifests)
  let left := s.deleteManifests gone
  match kept with
  | .error e => (.error e, left)
  | .ok ids =>
    (.ok (), if (JsNumber.finite ids.length).le opts.maxStoredCheckpoints then left.garbageCollect
      else left)

/-! Commits. -/

def committedFile (blobs : KeyedMap Content) (file : String × String) :
    Except String (String × Content) :=
  match blobs.get file.2.toLower with
  | none => .error ("CHECKPOINT_INCOMPLETE_BLOBS: Missing blob '" ++ file.2 ++ "'")
  | some content => do
    throwIf (opts.maxFileBytes.lt (.finite (host.byteLength content)))
      (fileTooLarge ("File '" ++ file.1 ++ "' exceeds maxFileBytes"))
    return (file.1, content)

def bytesOf (files : List (String × Content)) : ℕ := (files.map fun kv => host.byteLength kv.2).sum

/-- The bytes of the files of a manifest that is complete. -/
def checkFiles (blobs : KeyedMap Content) (checkpointId : String) (m : Manifest) :
    Except String ℕ := do
  let files ← m.blobHashes.ownEntries.mapM (committedFile host opts blobs)
  let total := bytesOf host files
  throwIf (opts.maxCheckpointBytes.lt (.finite total))
    (sizeLimit ("Checkpoint '" ++ checkpointId ++ "'") (.finite total) opts.maxCheckpointBytes)
  let actual := host.computeSnapshotDigest (KeyedMap.ofAssignments files) m.workspaceRevision
  throwIf (actual ≠ m.snapshotDigest)
    ("CHECKPOINT_DIGEST_MISMATCH: Snapshot digest mismatch for '" ++ checkpointId ++ "'. Expected '" ++
      m.snapshotDigest ++ "', got '" ++ actual ++ "'")
  return total

def checkCommit (checkpointId : String) (entry : Entry) (authToken sourceWorkerId : Option String)
    (now : Timestamp) : Except String Unit := do
  opts.verifyAuthentication host authToken none
  throwIf ((given sourceWorkerId).any fun worker => worker ≠ entry.manifest.sourceWorkerId)
    ("CHECKPOINT_WORKER_IDENTITY_MISMATCH: Manifest sourceWorkerId '" ++
      entry.manifest.sourceWorkerId ++ "' does not match committing worker '" ++
      sourceWorkerId.getD "" ++ "'")
  throwIf (expired host entry.manifest now)
    ("CHECKPOINT_MANIFEST_EXPIRED: Checkpoint '" ++ checkpointId ++ "' has expired")

def checkComplete (checkpointId : String) (m : Manifest) : Except String ℕ := do
  let missing := s.missingBlobs m
  throwIf (missing ≠ [])
    ("CHECKPOINT_INCOMPLETE_BLOBS: Cannot commit '" ++ checkpointId ++ "'; missing " ++
      toString missing.length ++ " blob(s): " ++ ", ".intercalate missing)
  checkFiles host opts s.blobs checkpointId m

def receiptOf (receiptId checkpointId : String) (entry : Entry) (total : ℕ) (now : Timestamp) :
    Receipt where
  receiptId := "rcpt-" ++ receiptId
  checkpointId
  executionId := entry.manifest.executionId
  workspaceRevision := entry.manifest.workspaceRevision
  sourceWorkerId := entry.manifest.sourceWorkerId
  targetWorkerId := entry.manifest.targetWorkerId
  snapshotDigest := entry.manifest.snapshotDigest
  totalBytes := total
  blobCount := entry.manifest.uniqueHashes.length
  deduplicatedBlobCount := entry.deduplicatedBlobCount
  redactedSecretsCount := entry.manifest.redactedSecretsCount.getD 0
  committedAt := isoText now
  downloadedByWorkerId := none
  downloadedAt := none

def commitCheckpoint (checkpointId : String) (authToken sourceWorkerId : Option String)
    (receiptId : String) (now : Timestamp) : Call (Service Content) Receipt := fun s =>
  match s.manifests.get checkpointId with
  | none => (.error ("CHECKPOINT_MANIFEST_NOT_FOUND: '" ++ checkpointId ++ "'"), s)
  | some entry => (do
    Call.lift (checkCommit host opts checkpointId entry authToken sourceWorkerId now)
    match entry.receipt.filter fun _ => entry.committed with
    | some receipt => return receipt
    | none =>
      let total ← Call.lift (s.checkComplete host opts checkpointId entry.manifest)
      let receipt := receiptOf receiptId checkpointId entry total now
      Call.modify fun s => s.putEntry checkpointId (entry.commit receipt now)
      enforceRetentionLimits opts
      return receipt : Call (Service Content) Receipt) s

/-! Downloads. -/

def bundledBlob (blobs : KeyedMap Content) (checkpointId hash : String) :
    Except String (String × Content) :=
  match blobs.get hash.toLower with
  | some content => .ok (hash.toLower, content)
  | none => .error ("CHECKPOINT_BLOB_MISSING: Blob '" ++ hash.toLower ++ "' missing for '" ++
      checkpointId ++ "'")

def bundleBlobs (blobs : KeyedMap Content) (checkpointId : String) (m : Manifest) :
    Except String (KeyedMap Content) :=
  (m.uniqueHashes.mapM (bundledBlob blobs checkpointId)).map KeyedMap.ofAssignments

/-- The receipt of what a worker has downloaded. -/
def downloaded (receipt : Receipt) (requestingWorkerId : Option String) (now : Timestamp) : Receipt :=
  match given requestingWorkerId with
  | some worker =>
    { receipt with downloadedByWorkerId := some worker, downloadedAt := some (isoText now) }
  | none => receipt

/-- Whether a bundle is for another worker. -/
def forAnother (m : Manifest) (requestingWorkerId : Option String) : Bool :=
  (given m.targetWorkerId).any fun target => (given requestingWorkerId).any (· ≠ target)

/-- Whether a committed manifest has expired; one that does not say when never does. -/
def pastExpiry (m : Manifest) (now : Timestamp) : Bool :=
  (host.parseDate m.expiresAt).any fun t => t.1 ≤ now.1

def getBundle (checkpointId : String) (authToken requestingWorkerId : Option String)
    (now : Timestamp) : Call (Service Content) (Bundle Content) := fun s =>
  match (s.manifests.get checkpointId).bind fun entry =>
      (entry.receipt.filter fun _ => entry.committed).map fun receipt => (entry, receipt) with
  | none => (.error ("CHECKPOINT_NOT_FOUND: Committed checkpoint '" ++ checkpointId ++ "' not found"),
      s)
  | some (entry, receipt) => (do
    Call.lift (opts.verifyAuthentication host authToken none)
    if pastExpiry host entry.manifest now then
      Call.modify fun s => s.pruneExpired host now
      Call.lift (throwIf true ("CHECKPOINT_EXPIRED: Checkpoint '" ++ checkpointId ++ "' has expired"))
    Call.lift (throwIf (forAnother entry.manifest requestingWorkerId)
      ("CHECKPOINT_TARGET_WORKER_MISMATCH: Checkpoint '" ++ checkpointId ++
        "' is designated for targetWorkerId '" ++ entry.manifest.targetWorkerId.getD "" ++ "', not '" ++
        requestingWorkerId.getD "" ++ "'"))
    let blobs ← Call.lift (bundleBlobs s.blobs checkpointId entry.manifest)
    let receipt := downloaded receipt requestingWorkerId now
    Call.modify fun s => s.putEntry checkpointId { entry with receipt := some receipt }
    return ⟨entry.manifest, blobs, receipt⟩ : Call (Service Content) (Bundle Content)) s

/-! Reconstruction. -/

def reconstructedFile (blobs : KeyedMap Content) (file : String × String) :
    Except String (String × Content) := do
  validateSafeCheckpointPath file.1
  match (blobs.get file.2.toLower).or (blobs.get file.2) with
  | none => .error ("CHECKPOINT_BLOB_MISSING: Missing content for file '" ++ file.1 ++ "' (blob '" ++
      file.2 ++ "')")
  | some content =>
    throwIf (host.computeBlobHash content ≠ file.2.toLower)
      ("CHECKPOINT_BLOB_HASH_MISMATCH: Tampered blob for '" ++ file.1 ++ "'. Expected '" ++
        file.2.toLower ++ "', got '" ++ host.computeBlobHash content ++ "'")
    return (file.1, content)

def reconstructCheckpoint (m : Manifest) (blobs : KeyedMap Content) :
    Except String (Checkpoint Content) := do
  throwIf (opts.badSignature host m)
    "UNAUTHORIZED_CHECKPOINT_TRANSFER: Invalid manifest HMAC signature"
  let files ← m.blobHashes.ownEntries.mapM (reconstructedFile host blobs)
  let total := bytesOf host files
  throwIf (opts.maxCheckpointBytes.lt (.finite total))
    (sizeLimit "Reconstructed checkpoint" (.finite total) opts.maxCheckpointBytes)
  let filesSnapshot := KeyedMap.ofAssignments files
  let actual := host.computeSnapshotDigest filesSnapshot m.workspaceRevision
  throwIf (actual ≠ m.snapshotDigest)
    ("CHECKPOINT_DIGEST_MISMATCH: Reconstructed snapshot digest '" ++ actual ++
      "' does not match manifest digest '" ++ m.snapshotDigest ++ "'")
  return { m.checkpointEnvelope with
    createdAt := host.parseDate m.checkpointEnvelope.createdAt
    filesSnapshot := some filesSnapshot }

end Service

/-! A transfer. -/

/-- What the calls of a transfer are made with, and when. -/
structure Course where
  authToken : Option String
  committer : Option String
  requester : Option String
  receiptId : String
  registeredAt : Timestamp
  committedAt : Timestamp
  fetchedAt : Timestamp

section Transfer

variable (host : Host Content) (opts : Options)

/-- The upload of a packaged blob. -/
def uploadBlob (pkg : Package Content) (authToken : Option String) (hash : String) :
    Call (Service Content) Unit :=
  match pkg.blobs.get hash with
  | none => Call.lift (.error "INVALID_BLOB_CONTENT: Blob content must be a string")
  | some content => do let _ ← Service.putBlob host opts hash content authToken

/-- The calls from the registration of a packaged manifest to the rebuilt checkpoint, with the uploads
in an order. -/
def transfer (pkg : Package Content) (course : Course) (order : List String) :
    Call (Service Content) (Checkpoint Content) := do
  let _ ← Service.registerManifest host opts pkg.manifest course.authToken course.registeredAt
  order.forM (uploadBlob host opts pkg course.authToken)
  let _ ← Service.commitCheckpoint host opts pkg.manifest.checkpointId course.authToken
    course.committer course.receiptId course.committedAt
  let bundle ← Service.getBundle host opts pkg.manifest.checkpointId course.authToken
    course.requester course.fetchedAt
  Call.lift (Service.reconstructCheckpoint host opts bundle.manifest bundle.blobs)

end Transfer

end Wazir.Checkpoints.Transfer
