import Wazir.Checkpoints.TransferKept

/-! What the signature of a manifest says of the checkpoint that is rebuilt from it: the files, and
nothing of what travels in the envelope. -/

namespace Wazir.Checkpoints.Transfer

open JsValue

variable {Content : Type} {host : Host Content} {opts : Options}

/-- What a restoration is asked with, and the revision that the engine has of the execution. -/
structure Target where
  targetWorkerId : Option String
  targetExecutionRevision : Option JsNumber
  recordedRevision : Option JsNumber
  allowRollback : Bool

def Target.currentRevision (target : Target) : Option JsNumber :=
  target.targetExecutionRevision.or target.recordedRevision

def validateTargetRestoration (c : Checkpoint Content) (manifest : Option Manifest)
    (target : Target) : Except String Unit := do
  throwIf (manifest.any fun m => Service.forAnother m target.targetWorkerId)
    ("CHECKPOINT_TARGET_WORKER_MISMATCH: Checkpoint '" ++ c.id ++ "' expects targetWorkerId '" ++
      (manifest.bind Manifest.targetWorkerId).getD "" ++ "', got '" ++
      target.targetWorkerId.getD "" ++ "'")
  match target.currentRevision with
  | none => return
  | some revision =>
    throwIf (c.workspaceRevision.lt revision && !target.allowRollback)
      ("STALE_CHECKPOINT_RESTORATION: Target execution '" ++ c.executionId ++
        "' is at confirmed workspaceRevision " ++ template (.num revision) ++
        ", which is newer than checkpoint '" ++ c.id ++ "' revision " ++
        template (.num c.workspaceRevision))

/-- A bundle that is rebuilt and accepted for a target. -/
structure Restored (host : Host Content) (opts : Options) (m : Manifest) (blobs : KeyedMap Content)
    (target : Target) (c : Checkpoint Content) : Prop where
  rebuilt : Service.reconstructCheckpoint host opts m blobs = .ok c
  accepted : validateTargetRestoration c (some m) target = .ok ()

/-- No content of one bundle has the hash of another content of the other. -/
def NoCollision (host : Host Content) (blobs blobs' : KeyedMap Content) : Prop :=
  ∀ hash content hash' content', blobs.get hash = some content → blobs'.get hash' = some content' →
    host.computeBlobHash content = host.computeBlobHash content' → content = content'

/-- The same members, the same date, and the same content under each path. -/
structure SameRestored (a b : Checkpoint Content) : Prop where
  members : a.toCheckpointMembers = b.toCheckpointMembers
  createdAt : a.createdAt = b.createdAt
  files : ∀ path, a.files.get path = b.files.get path

/-- The envelopes of two manifests say the same. -/
structure SameEnvelope (host : Host Content) (m m' : Manifest) : Prop where
  members : m.checkpointEnvelope.toCheckpointMembers = m'.checkpointEnvelope.toCheckpointMembers
  createdAt : host.parseDate m.checkpointEnvelope.createdAt =
    host.parseDate m'.checkpointEnvelope.createdAt

/-! The payload names the files. -/

theorem comma_notMem_positiveText (q : ℚ) : ',' ∉ positiveText q := by
  have hnat : ∀ n, ',' ∉ Nat.toDigits 10 n := fun n h =>
    absurd (AllDigits.toDigits n ',' h) (by decide)
  unfold positiveText
  dsimp only
  generalize hall : Nat.toDigits 10 (q.num.toNat * 10 ^ decimalPlaces q / q.den) = all
  generalize hdigits : (all.reverse.dropWhile (· = '0')).reverse = digits
  have hnone : ',' ∉ digits := by
    intro h
    rw [← hdigits, List.mem_reverse] at h
    exact hnat _ (hall ▸ List.mem_reverse.mp ((List.dropWhile_sublist _).subset h))
  have htake : ∀ k, ',' ∉ digits.take k := fun k h => hnone (List.mem_of_mem_take h)
  have hdrop : ∀ k, ',' ∉ digits.drop k := fun k h => hnone (List.mem_of_mem_drop h)
  have htail : ',' ∉ digits.tail := fun h => hnone (List.mem_of_mem_tail h)
  split_ifs <;> simp [hnone, htake, hdrop, htail, hnat]

theorem comma_notMem_numberText (n : JsNumber) : ',' ∉ numberText n := by
  have hpositive := comma_notMem_positiveText
  unfold numberText
  split
  · split_ifs <;> simp [hpositive]
  · decide

theorem after_comma {a b r r' : List Char} (ha : ',' ∉ a) (hb : ',' ∉ b)
    (h : a ++ ',' :: r = b ++ ',' :: r') : r = r' := by
  induction a generalizing b with
  | nil =>
    cases b with
    | nil => exact (List.cons.inj h).2
    | cons c b => exact absurd (List.cons.inj h).1 fun heq => hb (heq ▸ List.mem_cons_self)
  | cons c a ih =>
    cases b with
    | nil => exact absurd (List.cons.inj h).1 fun heq => ha (heq ▸ List.mem_cons_self)
    | cons d b =>
      exact ih (fun hmem => ha (List.mem_cons_of_mem c hmem))
        (fun hmem => hb (List.mem_cons_of_mem d hmem)) (List.cons.inj h).2

/-- What a text is of, and where it ends, can be read from it. -/
theorem text_inj {nearest : ℚ → JsNumber} {v w : JsValue} (hv : Readable nearest v)
    (hw : Readable nearest w) {r r' : List Char}
    (h : v.jsonText ++ ',' :: r = w.jsonText ++ ',' :: r') : v = w ∧ r = r' := by
  have hread := hv.reads (2 * (v.jsonText.length + w.jsonText.length) + 1) _ (by omega)
    (follows_comma r)
  rw [h, hw.reads _ _ (by omega) (follows_comma r')] at hread
  obtain ⟨hvalue, hrest⟩ := Prod.mk.inj (Option.some.inj hread)
  exact ⟨hvalue.symm, (List.cons.inj hrest).2.symm⟩

theorem member_inj {nearest : ℚ → JsNumber} {key : String} {v w : JsValue} (hv : Readable nearest v)
    (hw : Readable nearest w) {r r' : List Char}
    (h : (quoted key ++ ':' :: v.jsonText) ++ ',' :: r = (quoted key ++ ':' :: w.jsonText) ++ ',' :: r') :
    v = w ∧ r = r' := by
  rw [List.append_assoc, List.append_assoc] at h
  exact text_inj hv hw (List.cons.inj (List.append_cancel_left h)).2

/-- One payload names one set of files and hashes. -/
theorem payload_files {m m' : Manifest}
    (h : host.canonicalManifestPayload m = host.canonicalManifestPayload m') :
    m.blobHashes.ownEntries.Perm m'.blobHashes.ownEntries := by
  have hstr : ∀ s, Readable .finite (.str s) := .str
  have hworker : ∀ id : Option String, Readable .finite ((id.map JsValue.str).getD .null) := by
    rintro (_ | id)
    · exact .null
    · exact .str id
  have hfiles : ∀ files : List (String × String),
      Readable .finite (.arr (files.map fun kv => .arr [.str kv.1, .str kv.2])) := by
    intro files
    refine .arr fun v hv => ?_
    obtain ⟨kv, -, rfl⟩ := List.mem_map.mp hv
    refine .arr fun w hw => ?_
    rcases List.mem_pair.mp hw with rfl | rfl <;> exact .str _
  have hnumber : ∀ {key : String} {n n' : JsNumber} {r r' : List Char},
      (quoted key ++ ':' :: numberText n) ++ ',' :: r = (quoted key ++ ':' :: numberText n') ++ ',' :: r' →
        r = r' := by
    intro key n n' r r' heq
    rw [List.append_assoc, List.append_assoc] at heq
    exact after_comma (comma_notMem_numberText n) (comma_notMem_numberText n')
      (List.cons.inj (List.append_cancel_left heq)).2
  have htext := congrArg String.toList h
  simp only [Host.canonicalManifestPayload, String.toList_ofList] at htext
  rw [jsonText, jsonText,
    jsonFields_eq (by simp only [List.forall_mem_cons, (hworker _).defined]; simp [isUndefined]),
    jsonFields_eq (by simp only [List.forall_mem_cons, (hworker _).defined]; simp [isUndefined])] at htext
  simp only [List.map_cons, List.map_nil, commaJoin] at htext
  obtain ⟨-, htext⟩ := member_inj (hstr _) (hstr _) (List.append_cancel_right (List.cons.inj htext).2)
  obtain ⟨-, htext⟩ := member_inj (hstr _) (hstr _) htext
  obtain ⟨-, htext⟩ := member_inj (hstr _) (hstr _) (hnumber htext)
  obtain ⟨-, htext⟩ := member_inj (hworker _) (hworker _) htext
  obtain ⟨-, htext⟩ := member_inj (hstr _) (hstr _) htext
  obtain ⟨hblobs, -⟩ := member_inj (hfiles _) (hfiles _) htext
  have hpair : Function.Injective fun kv : String × String => JsValue.arr [.str kv.1, .str kv.2] := by
    rintro ⟨_, _⟩ ⟨_, _⟩ hkv
    cases hkv
    rfl
  have hsorted := List.map_injective_iff.mpr hpair (JsValue.arr.inj hblobs)
  have hperm : ∀ (le : String × String → String × String → Ordering) l, (sortBy le l).Perm l :=
    fun le l => List.perm_insertionSort _ l
  exact (hperm _ _).symm.trans (hsorted.symm ▸ hperm _ _)

/-- What is rebuilt has under each path a content of the hash that the manifest gives. -/
theorem rebuilt_files {m : Manifest} {blobs : KeyedMap Content} {c : Checkpoint Content}
    (h : Service.reconstructCheckpoint host opts m blobs = .ok c) :
    ∃ files : List (String × Content), c.files = KeyedMap.ofAssignments files ∧
      (∀ file ∈ files, ∃ hash, blobs.get hash = some file.2) ∧
      hashed host files = m.blobHashes.ownEntries.map fun kv => (kv.1, kv.2.toLower) := by
  obtain ⟨-, files, hfiles, -, -, rfl⟩ := Service.reconstructCheckpoint_ok.mp h
  refine ⟨files, rfl, ?_, ?_⟩
  · intro file hfile
    obtain ⟨named, -, hnamed⟩ := exists_of_forall₂ (mapM_ok.mp hfiles).flip hfile
    obtain ⟨-, content, hget, -, rfl⟩ := Service.reconstructedFile_ok.mp hnamed
    rcases Option.or_eq_some_iff.mp hget with hlower | ⟨-, hplain⟩
    · exact ⟨_, hlower⟩
    · exact ⟨_, hplain⟩
  · have hsame : List.Forall₂ Eq (hashed host files)
        (m.blobHashes.ownEntries.map fun kv => (kv.1, kv.2.toLower)) := by
      rw [hashed, List.forall₂_map_left_iff, List.forall₂_map_right_iff]
      refine (mapM_ok.mp hfiles).flip.imp fun file named hnamed => ?_
      obtain ⟨-, content, -, hhash, rfl⟩ := Service.reconstructedFile_ok.mp hnamed
      rw [hhash]
    rwa [List.forall₂_eq_eq_eq] at hsame

/-- Files of the same paths and hashes, none of which collide, are the same files. -/
theorem same_files {files files' : List (String × Content)}
    (hperm : (hashed host files).Perm (hashed host files'))
    (hinj : ∀ file ∈ files, ∀ file' ∈ files',
      host.computeBlobHash file.2 = host.computeBlobHash file'.2 → file.2 = file'.2)
    (hnodup : ((hashed host files).map Prod.fst).Nodup) (path : String) :
    (KeyedMap.ofAssignments files).get path = (KeyedMap.ofAssignments files').get path := by
  have hlookup : files.lookup path = files'.lookup path := by
    have hhash : (files.lookup path).map host.computeBlobHash =
        (files'.lookup path).map host.computeBlobHash := by
      rw [← lookup_map, ← lookup_map]
      exact lookup_perm hperm hnodup path
    cases hfile : files.lookup path with
    | none =>
      rw [hfile, Option.map_none] at hhash
      exact (Option.map_eq_none_iff.mp hhash.symm).symm
    | some content =>
      rw [hfile, Option.map_some] at hhash
      obtain ⟨content', hfile', heq⟩ := Option.map_eq_some_iff.mp hhash.symm
      have hcontent : content = content' :=
        hinj _ (mem_of_lookup hfile) _ (mem_of_lookup hfile') heq.symm
      rw [hfile', hcontent]
  have hkeys : ∀ l : List (String × Content), (hashed host l).map Prod.fst = l.map Prod.fst :=
    fun l => List.map_map
  rw [hkeys] at hnodup
  have hnodup' : (files'.map Prod.fst).Nodup := by
    rw [← hkeys]
    exact (hperm.map Prod.fst).nodup_iff.mp (hkeys files ▸ hnodup)
  by_cases hproto : path = "__proto__"
  · have hnone : ∀ l : List (String × Content), (KeyedMap.ofAssignments l).get "__proto__" = none :=
      fun l => lookup_eq_none_mem.mpr (KeyedMap.proto_notMem l)
    rw [hproto, hnone, hnone]
  · rw [KeyedMap.ofAssignments_get _ hproto, KeyedMap.ofAssignments_get _ hproto,
      lookup_perm files.reverse_perm (by rwa [(files.reverse_perm.map Prod.fst).nodup_iff]),
      lookup_perm files'.reverse_perm (by rwa [(files'.reverse_perm.map Prod.fst).nodup_iff]), hlookup]

/-- Of two bundles whose manifests have one payload and are signed with the secret of the service, the
same is restored exactly if their envelopes say the same; and what is restored is of a signed manifest
exactly if the manifest has a signature at all. -/
theorem signature_covers_iff (host : Host Content) (opts : Options) (secret : String)
    (hsecret : given opts.transportSecret = some secret) :
    (∀ m m' blobs blobs' target target' c c', Restored host opts m blobs target c →
      Restored host opts m' blobs' target' c' → NoCollision host blobs blobs' →
      host.canonicalManifestPayload m = host.canonicalManifestPayload m' →
      host.verifyCheckpointManifestSignature m secret = true →
      host.verifyCheckpointManifestSignature m' secret = true →
      (SameRestored c c' ↔ SameEnvelope host m m')) ∧
    ∀ m blobs target c, Restored host opts m blobs target c →
      (host.verifyCheckpointManifestSignature m secret = true ↔
        (given m.authSignature).isSome = true) := by
  constructor
  · intro m m' blobs blobs' target target' c c' h h' hcollision hpayload _ _
    have hfiles : ∀ path, c.files.get path = c'.files.get path := by
      obtain ⟨files, hc, hblobs, hhashes⟩ := rebuilt_files h.rebuilt
      obtain ⟨files', hc', hblobs', hhashes'⟩ := rebuilt_files h'.rebuilt
      have hperm : (hashed host files).Perm (hashed host files') := by
        rw [hhashes, hhashes']
        exact (payload_files hpayload).map _
      rw [hc, hc']
      refine same_files hperm ?_ ?_
      · intro file hfile file' hfile' heq
        obtain ⟨hash, hblob⟩ := hblobs file hfile
        obtain ⟨hash', hblob'⟩ := hblobs' file' hfile'
        exact hcollision _ _ _ _ hblob hblob' heq
      · rw [hhashes, List.map_map]
        exact m.blobHashes.ownEntries_distinct
    obtain ⟨-, files, -, -, -, rfl⟩ := Service.reconstructCheckpoint_ok.mp h.rebuilt
    obtain ⟨-, files', -, -, -, rfl⟩ := Service.reconstructCheckpoint_ok.mp h'.rebuilt
    exact ⟨fun hsame => ⟨hsame.members, hsame.createdAt⟩,
      fun henvelope => ⟨henvelope.members, henvelope.createdAt, hfiles⟩⟩
  · intro m blobs target c h
    have hgood := (Service.reconstructCheckpoint_ok.mp h.rebuilt).1
    rw [Options.badSignature, hsecret, Option.any_some, Bool.and_eq_false_iff] at hgood
    constructor
    · intro hverified
      rw [Host.verifyCheckpointManifestSignature, Option.any_eq_true] at hverified
      obtain ⟨signature, hsignature, hvalid⟩ := hverified
      rw [Bool.and_eq_true, decide_eq_true_eq] at hvalid
      simp [given, hsignature, hvalid.1]
    · intro hsigned
      simpa [hsigned] using hgood

/-! A service with a secret. -/

def secretOptions : Options := { openOptions with transportSecret := some "s3cret" }

def anyTarget : Target := ⟨none, none, none, false⟩

/-- A manifest without files, of a checkpoint with a description. -/
noncomputable def fileless (description : JsValue) : Manifest where
  checkpointId := "chk-1"
  executionId := "exec-1"
  workspaceRevision := .zero
  sourceWorkerId := "worker-1"
  targetWorkerId := none
  snapshotDigest := oneDayHost.computeSnapshotDigest KeyedMap.empty .zero
  blobHashes := KeyedMap.empty
  totalBytes := .zero
  createdAt := isoText dayOne
  expiresAt := isoText dayTwo
  authSignature := none
  checkpointEnvelope :=
    { (oneFile "a.txt").toCheckpointMembers with description, createdAt := isoText dayOne }
  redactedSecretsCount := none

noncomputable def signed (m : Manifest) : Manifest :=
  { m with authSignature := some (oneDayHost.signCheckpointManifest m "s3cret") }

theorem verifies_signed (host : Host Content) (hhmac : host.hmac = fun key text => key ++ text)
    (m : Manifest) : host.verifyCheckpointManifestSignature
      { m with authSignature := some (host.signCheckpointManifest m "s3cret") } "s3cret" = true := by
  have hne : host.signCheckpointManifest m "s3cret" ≠ "" := by
    intro h
    rw [Host.signCheckpointManifest, hhmac] at h
    exact absurd (String.append_eq_empty_iff.mp h).1 (by decide)
  exact Bool.and_eq_true_iff.mpr ⟨decide_eq_true hne, decide_eq_true rfl⟩

theorem signed_verifies (m : Manifest) :
    oneDayHost.verifyCheckpointManifestSignature (signed m) "s3cret" = true :=
  verifies_signed oneDayHost rfl m

/-- The checkpoint that is rebuilt from the manifest without files. -/
noncomputable def rebuiltOf (description : JsValue) : Checkpoint String :=
  { (fileless description).checkpointEnvelope with
    createdAt := oneDayHost.parseDate (isoText dayOne)
    filesSnapshot := some KeyedMap.empty }

theorem fileless_restored {description : JsValue} {authSignature : Option String}
    (hgood : secretOptions.badSignature oneDayHost { fileless description with authSignature } = false) :
    Restored oneDayHost secretOptions { fileless description with authSignature } KeyedMap.empty
      anyTarget (rebuiltOf description) where
  rebuilt := Service.reconstructCheckpoint_ok.mpr ⟨hgood, [], rfl, by decide +kernel, rfl, rfl⟩
  accepted := rfl

theorem signed_restored (description : JsValue) : Restored oneDayHost secretOptions
    (signed (fileless description)) KeyedMap.empty anyTarget (rebuiltOf description) := by
  have hsecret : given secretOptions.transportSecret = some "s3cret" := rfl
  refine fileless_restored ?_
  rw [← signed, Options.badSignature, hsecret, Option.any_some, signed_verifies, Bool.not_true,
    Bool.and_false]

theorem nothing_collides : NoCollision oneDayHost KeyedMap.empty KeyedMap.empty := by
  intro hash content hash' content' h
  cases h

/-! Two files. -/

/-- The SHA-256 of the content `b`. -/
def hashOfB : String := "3e23e8160039594a33894f6564e1b1348bbd7a0088d42c4acb73eeaed59c009d"

theorem hashOfB_hex : isBlobHash hashOfB = true := by decide

theorem hashOfB_lower : hashOfB.toLower = hashOfB := by decide +kernel

def digestOfTwo : String := "d7b2effb11b7499eca8fe83a6d495d0b91a203fd03b48a75611ebfd92548692a"

/-- A host whose hashes are the real ones on the contents `a` and `b` and on their snapshot. -/
noncomputable def twoFileHost : Host String :=
  { oneDayHost with
    computeBlobHash := fun content => if content = "b" then hashOfB else hashOfA
    sha256 := fun text => if text = "[\"a.txt\",\"a\"][\"b.txt\",\"b\"]rev:0\n" then digestOfTwo
      else oneDayHost.sha256 text
    blobHash_hex := fun content => by
      split_ifs
      · exact hashOfB_hex
      · exact oneDayHost.blobHash_hex content
    blobHash_lower := fun content => by
      split_ifs
      · exact hashOfB_lower
      · exact oneDayHost.blobHash_lower content }

def twoHashes : KeyedMap String := ⟨[("a.txt", hashOfA), ("b.txt", hashOfB)], by decide⟩

def turnedHashes : KeyedMap String := ⟨[("b.txt", hashOfB), ("a.txt", hashOfA)], by decide⟩

def twoBlobs : KeyedMap String := ⟨[(hashOfA, "a"), (hashOfB, "b")], by decide⟩

/-- The blobs in another order, and one under a key that the manifest does not name. -/
def moreBlobs : KeyedMap String := ⟨[("unused", "b"), (hashOfB, "b"), (hashOfA, "a")], by decide⟩

noncomputable def unsignedTwo (blobHashes : KeyedMap String) : Manifest :=
  { fileless .undefined with blobHashes, totalBytes := .finite 2, snapshotDigest := digestOfTwo }

/-- A signed manifest of the two files. -/
noncomputable def twoFiles (blobHashes : KeyedMap String) : Manifest :=
  { unsignedTwo blobHashes with
    authSignature := some (twoFileHost.signCheckpointManifest (unsignedTwo blobHashes) "s3cret") }

theorem twoFiles_restored (blobHashes blobs : KeyedMap String) (files : List (String × String))
    (hfiles : blobHashes.ownEntries.mapM (Service.reconstructedFile twoFileHost blobs) = .ok files)
    (hsize : secretOptions.maxCheckpointBytes.lt (.finite (Service.bytesOf twoFileHost files)) = false)
    (hdigest : twoFileHost.computeSnapshotDigest (KeyedMap.ofAssignments files) .zero = digestOfTwo) :
    Restored twoFileHost secretOptions (twoFiles blobHashes) blobs anyTarget
      { (fileless .undefined).checkpointEnvelope with
        createdAt := twoFileHost.parseDate (isoText dayOne)
        filesSnapshot := some (KeyedMap.ofAssignments files) } where
  rebuilt := by
    have hsecret : given secretOptions.transportSecret = some "s3cret" := rfl
    refine Service.reconstructCheckpoint_ok.mpr ⟨?_, files, hfiles, hsize, hdigest, rfl⟩
    rw [Options.badSignature, hsecret, Option.any_some, twoFiles, verifies_signed twoFileHost rfl,
      Bool.not_true, Bool.and_false]
  accepted := rfl

theorem two_apart : NoCollision twoFileHost twoBlobs moreBlobs := by
  have hdiffer : hashOfA ≠ hashOfB := by decide
  have hcontents : ∀ content content', content ∈ ["a", "b"] → content' ∈ ["a", "b"] →
      twoFileHost.computeBlobHash content = twoFileHost.computeBlobHash content' →
      content = content' := by
    intro content content' hmem hmem' hsame
    simp only [List.mem_cons, List.not_mem_nil, or_false] at hmem hmem'
    rcases hmem with rfl | rfl <;> rcases hmem' with rfl | rfl
    · rfl
    · exact absurd hsame hdiffer
    · exact absurd hsame.symm hdiffer
    · rfl
  have hmem : ∀ blobs ∈ [twoBlobs, moreBlobs], ∀ kv ∈ blobs.entries, kv.2 ∈ ["a", "b"] := by decide
  intro hash content hash' content' h h'
  exact hcontents _ _ (hmem _ (by simp) _ (mem_of_lookup h)) (hmem _ (by simp) _ (mem_of_lookup h'))

/-- Two bundles of the same two files, with their hashes and their blobs in other orders: the same is
restored, file by file. -/
theorem signature_covers_files : ∃ c c' : Checkpoint String,
    c.files.get "a.txt" = some "a" ∧ c.files.get "b.txt" = some "b" ∧
      twoHashes.entries ≠ turnedHashes.entries ∧ SameRestored c c' := by
  have h := twoFiles_restored twoHashes twoBlobs [("a.txt", "a"), ("b.txt", "b")] (by decide +kernel)
    (by decide +kernel) (by decide +kernel)
  have h' := twoFiles_restored turnedHashes moreBlobs [("b.txt", "b"), ("a.txt", "a")]
    (by decide +kernel) (by decide +kernel) (by decide +kernel)
  exact ⟨_, _, by decide +kernel, by decide +kernel, by decide,
    ((signature_covers_iff twoFileHost secretOptions "s3cret" rfl).1 _ _ _ _ _ _ _ _ h h' two_apart
      (by decide +kernel) (verifies_signed twoFileHost rfl _) (verifies_signed twoFileHost rfl _)).mpr
      ⟨rfl, rfl⟩⟩

/-- Another description in the envelope leaves the signature valid, and a manifest without a signature
is restored. -/
theorem description_forged :
    (Restored oneDayHost secretOptions (signed (fileless .undefined)) KeyedMap.empty anyTarget
        (rebuiltOf .undefined) ∧
      Restored oneDayHost secretOptions (signed (fileless (.str "forged"))) KeyedMap.empty anyTarget
        (rebuiltOf (.str "forged")) ∧
      NoCollision oneDayHost KeyedMap.empty KeyedMap.empty ∧
      oneDayHost.canonicalManifestPayload (signed (fileless .undefined)) =
        oneDayHost.canonicalManifestPayload (signed (fileless (.str "forged"))) ∧
      oneDayHost.verifyCheckpointManifestSignature (signed (fileless .undefined)) "s3cret" = true ∧
      oneDayHost.verifyCheckpointManifestSignature (signed (fileless (.str "forged"))) "s3cret" = true ∧
      ¬ SameRestored (rebuiltOf .undefined) (rebuiltOf (.str "forged"))) ∧
    Restored oneDayHost secretOptions (fileless .undefined) KeyedMap.empty anyTarget
        (rebuiltOf .undefined) ∧
      oneDayHost.verifyCheckpointManifestSignature (fileless .undefined) "s3cret" = false := by
  refine ⟨⟨signed_restored _, signed_restored _, nothing_collides, rfl, signed_verifies _,
    signed_verifies _, fun h => ?_⟩, fileless_restored rfl, rfl⟩
  have hdescription := congrArg CheckpointMembers.description h.members
  cases hdescription

end Wazir.Checkpoints.Transfer
