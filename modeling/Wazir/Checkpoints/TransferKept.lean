import Wazir.Checkpoints.RestartKept
import Wazir.Checkpoints.TransferSteps

/-! When a transfer gives the checkpoint that was packaged, and which manifests are complete once
their blobs are uploaded. -/

namespace Wazir.Checkpoints.Transfer

variable {Content : Type} {host : Host Content} {opts : Options} {s t : Service Content}

/-- The same members, the same date, and the same contents under the same paths. -/
structure SameCheckpoint (a b : Checkpoint Content) : Prop where
  members : a.toCheckpointMembers = b.toCheckpointMembers
  createdAt : a.createdAt = b.createdAt
  files : a.files.ownEntries = b.files.ownEntries

/-- The retention keeps a manifest that is committed at a time. -/
def Retained (opts : Options) (s : Service Content) (m : Manifest) (now : Timestamp) : Prop :=
  ∃ gone kept, Service.evict opts.maxStoredCheckpoints (Service.committedIds
      (s.manifests.set m.checkpointId ⟨m, true, 0, some now.1, none⟩)) = (gone, .ok kept) ∧
    m.checkpointId ∈ kept

/-- The calls of a transfer are made by who may make them, in time, for a manifest that is well formed
and that the retention keeps. -/
structure Admitted (host : Host Content) (opts : Options) (s : Service Content) (m : Manifest)
    (course : Course) : Prop where
  registers : opts.verifyAuthentication host course.authToken (some m) = .ok ()
  authorised : opts.verifyAuthentication host course.authToken none = .ok ()
  ids : m.checkpointId ≠ "" ∧ m.executionId ≠ ""
  revision : isRevision m.workspaceRevision = true
  sized : opts.maxCheckpointBytes.lt m.totalBytes = false
  inTime : ∀ now ∈ [course.registeredAt, course.committedAt, course.fetchedAt],
    Service.expired host m now = false
  committer : ((given course.committer).any fun worker => worker ≠ m.sourceWorkerId) = false
  requester : Service.forAnother m course.requester = false
  retained : Retained opts s m course.committedAt

/-- However the missing blobs are uploaded, the transfer gives the checkpoint that was packaged. -/
def Arrives (host : Host Content) (opts : Options) (s : Service Content) (pkg : Package Content)
    (course : Course) : Prop :=
  ∀ order, order.Perm (s.register pkg.manifest).1.missingBlobHashes →
    ∃ rebuilt t, transfer host opts pkg course order s = (.ok rebuilt, t) ∧
      SameCheckpoint rebuilt pkg.scrubbedCheckpoint

theorem pastExpiry_eq {m : Manifest} {now later : Timestamp}
    (h : Service.expired host m now = false) :
    Service.pastExpiry host m later = Service.expired host m later := by
  rw [Service.expired] at h
  rw [Service.pastExpiry, Service.expired]
  cases hparse : host.parseDate m.expiresAt with
  | none =>
    rw [hparse] at h
    cases h
  | some expiry => rfl

theorem badSignature_false {authToken : Option String} {m : Manifest}
    (h : opts.verifyAuthentication host authToken (some m) = .ok ()) :
    opts.badSignature host m = false := by
  rw [Options.verifyAuthentication, except_bind_eq_ok] at h
  obtain ⟨⟨⟩, hsignature, -⟩ := h
  simpa using hsignature

variable {course : Course}

section Package

variable {pkg : Package Content} (packaged : Packaged host opts pkg) {u : Service Content}
  {entry : Entry}

include packaged

/-- The contents travel as they are. -/
theorem Packaged.content (hcontent : OneContent host s pkg.scrubbedCheckpoint.files)
    {kv : String × Content} (hkv : kv ∈ pkg.scrubbedCheckpoint.files.ownEntries) :
    contentAt s pkg (host.computeBlobHash kv.2) = some kv.2 := by
  have hcarried := packaged.carried_iff.mpr hcontent
  have hsame := List.map_inj_left.mp (hcarried.trans (List.map_id _).symm) kv hkv
  rw [packaged.contentAt_eq hkv]
  exact congrArg (some ∘ Prod.snd) hsame

theorem Packaged.mem_hashes
    (hproto : "__proto__" ∉ pkg.scrubbedCheckpoint.files.ownEntries.map Prod.fst)
    {kv : String × Content} (hkv : kv ∈ pkg.scrubbedCheckpoint.files.ownEntries) :
    host.computeBlobHash kv.2 ∈ pkg.manifest.uniqueHashes := by
  apply List.mem_eraseDups.mpr
  rw [KeyedMap.ownValues, packaged.entries hproto, hashed, List.map_map]
  exact List.mem_map_of_mem hkv

theorem Packaged.same_digest
    (hproto : "__proto__" ∉ pkg.scrubbedCheckpoint.files.ownEntries.map Prod.fst) :
    host.computeSnapshotDigest (KeyedMap.ofAssignments pkg.scrubbedCheckpoint.files.ownEntries)
      pkg.manifest.workspaceRevision = pkg.manifest.snapshotDigest := by
  rw [packaged.digest, packaged.revision, Host.computeSnapshotDigest, Host.computeSnapshotDigest,
    KeyedMap.ownEntries_ofAssignments pkg.scrubbedCheckpoint.files.ownEntries_distinct hproto
      (KeyedMap.ownOrder_ownEntries _)]

/-- Once the blobs are there, the manifest is complete. -/
theorem Packaged.complete (ready : Ready host s pkg u entry)
    (hproto : "__proto__" ∉ pkg.scrubbedCheckpoint.files.ownEntries.map Prod.fst)
    (hcontent : OneContent host s pkg.scrubbedCheckpoint.files)
    (hsized : opts.maxCheckpointBytes.lt pkg.manifest.totalBytes = false) (id : String) :
    u.checkComplete host opts id pkg.manifest =
      .ok (Service.bytesOf host pkg.scrubbedCheckpoint.files.ownEntries) := by
  have hmissing : u.missingBlobs pkg.manifest = [] := by
    apply List.filter_eq_nil_iff.mpr
    intro hash hhash
    obtain ⟨kv, hkv, rfl⟩ := packaged.hash_of hhash
    simp [KeyedMap.has, ready.blobs _ hhash, packaged.content hcontent hkv]
  have hfiles : pkg.manifest.blobHashes.ownEntries.mapM (Service.committedFile host opts u.blobs) =
      .ok pkg.scrubbedCheckpoint.files.ownEntries := by
    rw [packaged.entries hproto, mapM_ok, hashed, List.forall₂_map_left_iff, List.forall₂_same]
    intro kv hkv
    refine Service.committedFile_ok.mpr ⟨kv.2, ?_, packaged.fits kv hkv, rfl⟩
    rw [host.blobHash_lower, ready.blobs _ (packaged.mem_hashes hproto hkv),
      packaged.content hcontent hkv]
  rw [packaged.total] at hsized
  simp only [Service.checkComplete, Service.checkFiles, except_bind_eq_ok, throwIf_ok]
  exact ⟨(), by simp [hmissing], _, hfiles, (), hsized, (), by simp [packaged.same_digest hproto],
    rfl⟩

/-- The other side rebuilds the checkpoint from the blobs. -/
theorem Packaged.reconstructs
    (hproto : "__proto__" ∉ pkg.scrubbedCheckpoint.files.ownEntries.map Prod.fst)
    (hcontent : OneContent host s pkg.scrubbedCheckpoint.files)
    (hsized : opts.maxCheckpointBytes.lt pkg.manifest.totalBytes = false)
    (hsignature : opts.badSignature host pkg.manifest = false) {blobs : KeyedMap Content}
    (hblobs : ∀ hash ∈ pkg.manifest.uniqueHashes, blobs.get hash = contentAt s pkg hash) :
    ∃ rebuilt, Service.reconstructCheckpoint host opts pkg.manifest blobs = .ok rebuilt ∧
      SameCheckpoint rebuilt pkg.scrubbedCheckpoint := by
  have hfiles : pkg.manifest.blobHashes.ownEntries.mapM (Service.reconstructedFile host blobs) =
      .ok pkg.scrubbedCheckpoint.files.ownEntries := by
    rw [packaged.entries hproto, mapM_ok, hashed, List.forall₂_map_left_iff, List.forall₂_same]
    intro kv hkv
    refine Service.reconstructedFile_ok.mpr ⟨packaged.safe kv hkv, kv.2, ?_,
      (host.blobHash_lower kv.2).symm, rfl⟩
    rw [host.blobHash_lower, hblobs _ (packaged.mem_hashes hproto hkv),
      packaged.content hcontent hkv, Option.some_or]
  rw [packaged.total] at hsized
  refine ⟨_, Service.reconstructCheckpoint_ok.mpr ⟨hsignature, _, hfiles, hsized,
    packaged.same_digest hproto, rfl⟩, packaged.members, packaged.created, ?_⟩
  exact KeyedMap.ownEntries_ofAssignments pkg.scrubbedCheckpoint.files.ownEntries_distinct hproto
    (KeyedMap.ownOrder_ownEntries _)

/-- A checkpoint that is rebuilt as it was has no file of the prototype's name, and one content for
each hash. -/
theorem Packaged.reconstructed {blobs : KeyedMap Content} {rebuilt : Checkpoint Content}
    (hblobs : ∀ hash ∈ pkg.manifest.uniqueHashes, ∀ content,
      blobs.get hash = some content → contentAt s pkg hash = some content)
    (h : Service.reconstructCheckpoint host opts pkg.manifest blobs = .ok rebuilt)
    (hsame : SameCheckpoint rebuilt pkg.scrubbedCheckpoint) :
    "__proto__" ∉ pkg.scrubbedCheckpoint.files.ownEntries.map Prod.fst ∧
      OneContent host s pkg.scrubbedCheckpoint.files := by
  obtain ⟨-, files, hfiles, -, -, rfl⟩ := Service.reconstructCheckpoint_ok.mp h
  have hentries : (KeyedMap.ofAssignments files).ownEntries =
      pkg.scrubbedCheckpoint.files.ownEntries := hsame.files
  have hproto : "__proto__" ∉ pkg.scrubbedCheckpoint.files.ownEntries.map Prod.fst := by
    rw [← hentries]
    intro hmem
    exact KeyedMap.proto_notMem files (((ownOrder_perm _).map Prod.fst).mem_iff.mp hmem)
  have hcarried : pkg.manifest.blobHashes.ownEntries.mapM (Service.reconstructedFile host blobs) =
      .ok (carriedFiles host s pkg) := by
    rw [packaged.entries hproto] at hfiles ⊢
    rw [mapM_ok, hashed, carriedFiles, List.forall₂_map_left_iff, List.forall₂_map_right_iff,
      List.forall₂_same]
    intro kv hkv
    obtain ⟨out, -, hout⟩ := exists_of_forall₂ (mapM_ok.mp hfiles)
      (List.mem_map_of_mem (f := fun kv => (kv.1, host.computeBlobHash kv.2)) hkv)
    obtain ⟨-, content, hget, -, rfl⟩ := Service.reconstructedFile_ok.mp hout
    rw [host.blobHash_lower, Option.or_self] at hget
    have hat := hblobs _ (packaged.mem_hashes hproto hkv) content hget
    rw [packaged.contentAt_eq hkv] at hat
    rw [hout, Option.some.inj hat]
  have hsames : files = carriedFiles host s pkg := Except.ok.inj (hfiles.symm.trans hcarried)
  refine ⟨hproto, packaged.carried_iff.mp ?_⟩
  rw [← hentries, hsames, carriedFiles_entries hproto]

omit packaged in
theorem transfer_ok {order : List String} {rebuilt : Checkpoint Content} :
    transfer host opts pkg course order s = (.ok rebuilt, t) ↔ ∃ r s₁ u receipt v bundle,
      Service.registerManifest host opts pkg.manifest course.authToken course.registeredAt s =
        (.ok r, s₁) ∧
      order.forM (uploadBlob host opts pkg course.authToken) s₁ = (.ok (), u) ∧
      Service.commitCheckpoint host opts pkg.manifest.checkpointId course.authToken course.committer
        course.receiptId course.committedAt u = (.ok receipt, v) ∧
      Service.getBundle host opts pkg.manifest.checkpointId course.authToken course.requester
        course.fetchedAt v = (.ok bundle, t) ∧
      Service.reconstructCheckpoint host opts bundle.manifest bundle.blobs = .ok rebuilt := by
  simp only [transfer, Call.bind_ok, Call.lift_ok]
  constructor
  · rintro ⟨r, s₁, hregister, ⟨⟩, u, huploads, receipt, v, hcommit, bundle, _, hbundle, hrebuilt, rfl⟩
    exact ⟨r, s₁, u, receipt, v, bundle, hregister, huploads, hcommit, hbundle, hrebuilt⟩
  · rintro ⟨r, s₁, u, receipt, v, bundle, hregister, huploads, hcommit, hbundle, hrebuilt⟩
    exact ⟨r, s₁, hregister, (), u, huploads, receipt, v, hcommit, bundle, t, hbundle, hrebuilt, rfl⟩

omit packaged in
/-- The ids of what is committed once a package is. -/
theorem Ready.committedIds (ready : Ready host s pkg u entry) (receipt : Receipt) (now : Timestamp) :
    Service.committedIds
        (u.putEntry pkg.manifest.checkpointId (entry.commit receipt now)).manifests =
      Service.committedIds
        (s.manifests.set pkg.manifest.checkpointId ⟨pkg.manifest, true, 0, some now.1, none⟩) := by
  rw [Service.putEntry, ready.manifests]
  exact Service.committedIds_set rfl

omit packaged in
theorem Ready.get (ready : Ready host s pkg u entry) :
    u.manifests.get pkg.manifest.checkpointId = some entry := by
  rw [ready.manifests, KeyedMap.get_set, if_pos rfl]

/-- A service that holds a committed package. -/
structure Held (s : Service Content) (pkg : Package Content) (v : Service Content) : Prop where
  entry : ∃ entry receipt, v.manifests.get pkg.manifest.checkpointId = some entry ∧
    entry.manifest = pkg.manifest ∧ entry.committed = true ∧ entry.receipt = some receipt
  blobs : ∀ hash ∈ pkg.manifest.uniqueHashes, v.blobs.get hash = contentAt s pkg hash

theorem Packaged.registers
    (hproto : "__proto__" ∉ pkg.scrubbedCheckpoint.files.ownEntries.map Prod.fst)
    (hadmitted : Admitted host opts s pkg.manifest course) :
    Service.registerManifest host opts pkg.manifest course.authToken course.registeredAt s =
      (.ok (s.register pkg.manifest).1, (s.register pkg.manifest).2) := by
  refine Service.registerManifest_ok.mpr ⟨hadmitted.registers, ?_, rfl⟩
  refine ⟨⟨hadmitted.ids.1, hadmitted.ids.2, packaged.source⟩, hadmitted.revision,
    hadmitted.inTime _ (by simp), hadmitted.sized, ?_⟩
  rw [packaged.entries hproto]
  intro file hfile
  obtain ⟨kv, hkv, rfl⟩ := List.mem_map.mp hfile
  exact ⟨packaged.safe kv hkv, host.blobHash_hex kv.2⟩

theorem Packaged.commits (ready : Ready host s pkg u entry)
    (hproto : "__proto__" ∉ pkg.scrubbedCheckpoint.files.ownEntries.map Prod.fst)
    (hcontent : OneContent host s pkg.scrubbedCheckpoint.files)
    (hadmitted : Admitted host opts s pkg.manifest course) :
    ∃ receipt v, Service.commitCheckpoint host opts pkg.manifest.checkpointId course.authToken
      course.committer course.receiptId course.committedAt u = (.ok receipt, v) ∧ Held s pkg v := by
  let receipt := Service.receiptOf course.receiptId pkg.manifest.checkpointId entry
    (Service.bytesOf host pkg.scrubbedCheckpoint.files.ownEntries) course.committedAt
  obtain ⟨gone, kept, hevict, hkept⟩ := hadmitted.retained
  rw [← ready.committedIds receipt course.committedAt] at hevict
  obtain ⟨v, hv⟩ : ∃ v, Service.enforceRetentionLimits opts (u.putEntry pkg.manifest.checkpointId
      (entry.commit receipt course.committedAt)) = (.ok (), v) :=
    ⟨_, Service.enforceRetentionLimits_ok.mpr ⟨gone, kept, hevict, rfl⟩⟩
  have hput : (u.putEntry pkg.manifest.checkpointId
      (entry.commit receipt course.committedAt)).manifests.get pkg.manifest.checkpointId =
        some (entry.commit receipt course.committedAt) := by
    rw [Service.putEntry, KeyedMap.get_set, if_pos rfl]
  obtain ⟨gone', kept', hevict', hmanifest, -, hblobs⟩ := Service.retention hput hv
  rw [hevict] at hevict'
  cases hevict'
  -- what stays is not among what goes
  have hstays : pkg.manifest.checkpointId ∉ gone := by
    intro hgone
    have hnodup := Service.committedIds_nodup (u.putEntry pkg.manifest.checkpointId
      (entry.commit receipt course.committedAt)).manifests
    rw [← Service.evict_append hevict] at hnodup
    exact (List.nodup_append.mp hnodup).2.2 _ hgone _ hkept rfl
  rw [if_neg hstays] at hmanifest
  have hcheck : Service.checkCommit host opts pkg.manifest.checkpointId entry course.authToken
      course.committer course.committedAt = .ok () := by
    rw [Service.checkCommit_ok, ready.manifest]
    exact ⟨hadmitted.authorised, hadmitted.committer, hadmitted.inTime _ (by simp)⟩
  have hcomplete : u.checkComplete host opts pkg.manifest.checkpointId entry.manifest =
      .ok (Service.bytesOf host pkg.scrubbedCheckpoint.files.ownEntries) := by
    rw [ready.manifest]
    exact packaged.complete ready hproto hcontent hadmitted.sized _
  refine ⟨receipt, v, (Service.commitCheckpoint_ok ready.get ready.pending).mpr
    ⟨hcheck, _, hcomplete, rfl, hv⟩, ⟨_, receipt, hmanifest, ready.manifest, rfl, rfl⟩, ?_⟩
  intro hash hhash
  have hvalue : hash ∈ (entry.commit receipt course.committedAt).manifest.blobHashes.ownValues := by
    change hash ∈ entry.manifest.blobHashes.ownValues
    rw [ready.manifest]
    exact List.mem_eraseDups.mp hhash
  have hkeep := hblobs hstays hash hvalue
  rw [(packaged.lower hhash).1] at hkeep
  exact hkeep.trans (ready.blobs hash hhash)

theorem Packaged.fetches {v : Service Content} (held : Held s pkg v)
    (hadmitted : Admitted host opts s pkg.manifest course) :
    ∃ bundle t, Service.getBundle host opts pkg.manifest.checkpointId course.authToken
      course.requester course.fetchedAt v = (.ok bundle, t) ∧ bundle.manifest = pkg.manifest ∧
        ∀ hash ∈ pkg.manifest.uniqueHashes, bundle.blobs.get hash = contentAt s pkg hash := by
  obtain ⟨entry, receipt, hget, hmanifest, hcommitted, hreceipt⟩ := held.entry
  have hstored : ∀ hash ∈ pkg.manifest.uniqueHashes, v.blobs.has hash.toLower = true := by
    intro hash hhash
    obtain ⟨kv, hkv, rfl⟩ := packaged.hash_of hhash
    rw [host.blobHash_lower, KeyedMap.has, held.blobs _ hhash, packaged.contentAt_eq hkv]
    rfl
  obtain ⟨out, hout⟩ : ∃ out, Service.bundleBlobs v.blobs pkg.manifest.checkpointId pkg.manifest =
      .ok out := Service.bundleBlobs_complete hstored
  have hpast : Service.pastExpiry host pkg.manifest course.fetchedAt = false := by
    rw [pastExpiry_eq (hadmitted.inTime course.registeredAt (by simp))]
    exact hadmitted.inTime _ (by simp)
  have hrequester := hadmitted.requester
  rw [← hmanifest] at hpast hrequester
  refine ⟨_, _, (Service.getBundle_ok hget hcommitted hreceipt).mpr ⟨hadmitted.authorised, hpast,
    hrequester, out, by rw [hmanifest, hout], rfl, rfl⟩, hmanifest, ?_⟩
  intro hash hhash
  obtain ⟨content, hcontent, hsame⟩ := Service.bundleBlobs_ok
    (fun hash hhash => packaged.lower hhash) hout hhash
  rw [hcontent, ← hsame, held.blobs hash hhash]

theorem Packaged.arrives (hfresh : s.isCommitted pkg.manifest.checkpointId = false)
    (hadmitted : Admitted host opts s pkg.manifest course)
    (hproto : "__proto__" ∉ pkg.scrubbedCheckpoint.files.ownEntries.map Prod.fst)
    (hcontent : OneContent host s pkg.scrubbedCheckpoint.files) :
    Arrives host opts s pkg course := by
  intro order horder
  obtain ⟨entry, ready⟩ := packaged.ready hfresh horder
  have hmissing : ∀ hash ∈ order, hash ∈ pkg.manifest.uniqueHashes := by
    intro hash hhash
    have hmem := horder.mem_iff.mp hhash
    rw [Service.register, if_neg (by simp [hfresh])] at hmem
    exact (List.mem_filter.mp hmem).1
  have huploads := Call.forM_ok
    (fun hash hhash state => packaged.uploadBlob_ok (s := state) hadmitted.authorised
      (hmissing hash hhash)) (s.register pkg.manifest).2
  obtain ⟨receipt, v, hcommit, held⟩ := packaged.commits ready hproto hcontent hadmitted
  obtain ⟨bundle, t, hbundle, hmanifest, hblobs⟩ := packaged.fetches held hadmitted
  obtain ⟨rebuilt, hrebuilt, hsame⟩ := packaged.reconstructs hproto hcontent hadmitted.sized
    (badSignature_false hadmitted.registers) hblobs
  exact ⟨rebuilt, t, transfer_ok.mpr ⟨_, _, _, receipt, v, bundle,
    packaged.registers hproto hadmitted, huploads, hcommit, hbundle, hmanifest ▸ hrebuilt⟩, hsame⟩

/-- What a transfer that arrives was admitted by, and what it needed of the files. -/
theorem Packaged.arrived (hfresh : s.isCommitted pkg.manifest.checkpointId = false)
    (harrives : Arrives host opts s pkg course) : Admitted host opts s pkg.manifest course ∧
      "__proto__" ∉ pkg.scrubbedCheckpoint.files.ownEntries.map Prod.fst ∧
      OneContent host s pkg.scrubbedCheckpoint.files := by
  obtain ⟨rebuilt, t, htransfer, hsame⟩ := harrives _ (List.Perm.refl _)
  obtain ⟨r, s₁, u, receipt, v, bundle, hregister, huploads, hcommit, hbundle, hrebuilt⟩ :=
    transfer_ok.mp htransfer
  obtain ⟨hauth, hregistrable, hstate⟩ := Service.registerManifest_ok.mp hregister
  have hu := Call.forM_foldl (fun hash _ _ => uploadBlob_state) huploads
  obtain ⟨entry, hready⟩ := packaged.ready hfresh (List.Perm.refl _)
  have ready : Ready host s pkg u entry := by
    rw [hu]
    rw [hstate] at hready ⊢
    exact hready
  obtain ⟨hcheck, total, -, -, hv⟩ := (Service.commitCheckpoint_ok ready.get ready.pending).mp hcommit
  obtain ⟨-, hcommitter, hcommitTime⟩ := Service.checkCommit_ok.mp hcheck
  rw [ready.manifest] at hcommitter hcommitTime
  have hput : (u.putEntry pkg.manifest.checkpointId
      (entry.commit receipt course.committedAt)).manifests.get pkg.manifest.checkpointId =
        some (entry.commit receipt course.committedAt) := by
    rw [Service.putEntry, KeyedMap.get_set, if_pos rfl]
  obtain ⟨gone, kept, hevict, hget, hstored, -⟩ := Service.retention hput hv
  -- a manifest that has gone has no bundle
  have hstays : pkg.manifest.checkpointId ∉ gone := by
    intro hgone
    rw [if_pos hgone] at hget
    exact Service.getBundle_absent hget hbundle
  rw [if_neg hstays] at hget
  have hkept : pkg.manifest.checkpointId ∈ kept := by
    have hmem := Service.mem_committedIds.mpr ⟨_, hput, rfl⟩
    rw [← Service.evict_append hevict] at hmem
    exact (List.mem_append.mp hmem).resolve_left hstays
  obtain ⟨hauthorised, hpast, hrequester, blobs, hblobs, rfl, -⟩ :=
    (Service.getBundle_ok hget rfl rfl).mp hbundle
  have hmanifest : (entry.commit receipt course.committedAt).manifest = pkg.manifest := ready.manifest
  rw [hmanifest] at hpast hrequester hblobs hrebuilt
  rw [pastExpiry_eq hregistrable.inTime] at hpast
  refine ⟨⟨hauth, hauthorised, ⟨hregistrable.ids.1, hregistrable.ids.2.1⟩, hregistrable.revision,
    hregistrable.sized, by simp [hregistrable.inTime, hcommitTime, hpast], hcommitter, hrequester,
    gone, kept, by rw [← ready.committedIds receipt, hevict], hkept⟩, ?_⟩
  refine packaged.reconstructed ?_ hrebuilt hsame
  intro hash hhash content hcontent
  obtain ⟨content', hout, hget'⟩ := Service.bundleBlobs_ok
    (fun hash hhash => packaged.lower hhash) hblobs hhash
  rw [hcontent] at hout
  cases hout
  rw [← ready.blobs hash hhash]
  exact hstored hash content hget'

end Package

/-! Manifests of any worker. -/

/-- The upload of a blob. -/
structure Upload (Content : Type) where
  blobHash : String
  content : Content
  authToken : Option String

def Upload.call (host : Host Content) (opts : Options) (upload : Upload Content) :
    Call (Service Content) Unit := do
  let _ ← Service.putBlob host opts upload.blobHash upload.content upload.authToken

theorem upload_state {upload : Upload Content} (h : upload.call host opts s = (.ok (), t)) :
    t = s.upload upload.blobHash upload.content := by
  simp only [Upload.call, Call.bind_ok, Call.pure_ok] at h
  obtain ⟨r, u, hput, -, rfl⟩ := h
  exact (Service.putBlob_ok.mp hput).2.2.2

/-- Uploads are kept under the hashes in lower case. -/
theorem has_uploads (uploads : List (Upload Content)) (key : String) :
    (uploads.foldl (fun s upload => s.upload upload.blobHash upload.content) s).blobs.has key = true ↔
      s.blobs.has key = true ∨ ∃ upload ∈ uploads, key = upload.blobHash.toLower := by
  induction uploads generalizing s with
  | nil => simp
  | cons upload rest ih =>
    rw [List.foldl_cons, ih, Service.has_upload, or_assoc]
    simp

/-- All blobs are uploaded, and none is missing: the hashes are in lower case. -/
theorem missingBlobs_uploaded {m : Manifest} {uploads : List (Upload Content)}
    (hrun : uploads.forM (Upload.call host opts) s = (.ok (), t))
    (hall : ∀ hash ∈ m.blobHashes.ownValues, hash ∈ uploads.map Upload.blobHash) :
    t.missingBlobs m = [] ↔ ∀ hash ∈ m.blobHashes.ownValues, hash.toLower = hash := by
  have ht := Call.forM_foldl (fun upload _ _ => upload_state) hrun
  have hmem : ∀ hash, hash ∈ m.uniqueHashes ↔ hash ∈ m.blobHashes.ownValues :=
    fun hash => List.mem_eraseDups
  have hmissing : t.missingBlobs m = [] ↔
      ∀ hash ∈ m.blobHashes.ownValues, t.blobs.has hash = true := by
    rw [Service.missingBlobs, List.filter_eq_nil_iff]
    simp [hmem]
  rw [hmissing]
  refine forall₂_congr fun hash hhash => ⟨fun h => ?_, fun h => ?_⟩
  · exact t.lower hash ((t.blobs.mem_keys).mpr h)
  · obtain ⟨upload, hupload, rfl⟩ := List.mem_map.mp (hall hash hhash)
    rw [ht, has_uploads]
    exact .inr ⟨upload, hupload, h.symm⟩

theorem proto_keys {files : KeyedMap Content} :
    "__proto__" ∉ files.ownEntries.map Prod.fst ↔ "__proto__" ∉ files.keys :=
  not_congr ((ownOrder_perm files.entries).map Prod.fst).mem_iff

/-- A packaged checkpoint arrives as it was scrubbed exactly if the calls are admitted, no path is that
of the prototype and each hash has one content; and a registered manifest is complete once its blobs
are uploaded exactly if its hashes are in lower case. -/
theorem transfer_exact (host : Host Content) (opts : Options)
    (scrub : Checkpoint Content → SecretScrubPolicy → Except String (Scrubbed Content)) :
    (∀ checkpoint options now pkg,
      packageCheckpoint host opts scrub checkpoint options now = .ok pkg →
      ∀ s course, s.isCommitted pkg.manifest.checkpointId = false →
        (Arrives host opts s pkg course ↔ Admitted host opts s pkg.manifest course ∧
          "__proto__" ∉ pkg.scrubbedCheckpoint.files.keys ∧
          OneContent host s pkg.scrubbedCheckpoint.files)) ∧
    ∀ s m authToken now r s₁,
      Service.registerManifest host opts m authToken now s = (.ok r, s₁) →
      ∀ (uploads : List (Upload Content)) t, uploads.forM (Upload.call host opts) s₁ = (.ok (), t) →
        (∀ hash ∈ m.blobHashes.ownValues, hash ∈ uploads.map Upload.blobHash) →
        (t.missingBlobs m = [] ↔ ∀ hash ∈ m.blobHashes.ownValues, hash.toLower = hash) := by
  constructor
  · intro checkpoint options now pkg hpackage s course hfresh
    have packaged := packageCheckpoint_ok hpackage
    rw [← proto_keys]
    constructor
    · exact packaged.arrived hfresh
    · intro h
      exact packaged.arrives hfresh h.1 h.2.1 h.2.2
  · intro s m authToken now r s₁ _ uploads t hrun hall
    exact missingBlobs_uploaded hrun hall

/-! A service on its own. -/

def dayOne : Timestamp := ⟨0, epoch_valid⟩

def dayTwo : Timestamp := ⟨86400000, by decide⟩

/-- The SHA-256 of the content `a`. -/
def hashOfA : String := "ca978112ca1bbdcafac231b39a23dc4da786eff8147c4e72b9807785afee48bb"

/-- A host whose hashes are the real ones on the content `a` and on its snapshots. -/
noncomputable def oneDayHost : Host String where
  computeBlobHash _ := hashOfA
  byteLength := String.utf8ByteSize
  entryText path content := String.ofList (JsValue.jsonText (.arr [.str path, .str content]))
  sha256 text :=
    if text = "[\"a.txt\",\"a\"]rev:0\n" then
      "2052cb95e7d825b4c136c7e5d6caffb416e5e56f3bfa3d675e5669ddcc2e2cc5"
    else if text = "[\"__proto__\",\"a\"]rev:0\n" then
      "623b158af4026b754178b330b632889934adcbf0262c47f3b5150109a2beec35"
    else if text = "rev:0\n" then
      "2bc757ad52adff93c94908766f2d7cf489ef382e3da0370609f89d1009f0b72f"
    else text
  hmac secret text := secret ++ text
  localeCompare := compareStrings
  parseDate s :=
    if s = isoText dayOne then some dayOne else if s = isoText dayTwo then some dayTwo else parseIso s
  blobHash_hex := fun _ => (by decide : isBlobHash hashOfA = true)
  blobHash_lower := fun _ => (by decide +kernel : hashOfA.toLower = hashOfA)
  parseDate_iso t := by
    by_cases hone : isoText t = isoText dayOne
    · rw [if_pos hone, isoText_injective hone]
    · by_cases htwo : isoText t = isoText dayTwo
      · rw [if_neg hone, if_pos htwo, isoText_injective htwo]
      · rw [if_neg hone, if_neg htwo, parseIso_isoText]

def openOptions : Options where
  transportSecret := none
  allowedBearerTokens := none
  requireAuth := none
  secretPolicy := .redact
  maxCheckpointBytes := .finite 52428800
  maxFileBytes := .finite 10485760
  maxStoredCheckpoints := .finite 100
  defaultTtlMs := .finite 86400000

/-- A checkpoint of one file, whose content is `a`. -/
def oneFile (path : String) : Checkpoint String where
  id := "chk-1"
  executionId := "exec-1"
  parentCheckpointId := .undefined
  workspaceRevision := .zero
  workspaceRoot := "/work"
  worktreeState := [("isGit", .bool false)]
  contextSnapshot := .undefined
  planState := .undefined
  verificationState := .obj [("passed", .bool true)]
  provenanceCursor := .undefined
  evidenceReferences := .undefined
  description := .undefined
  metadata := .undefined
  createdAt := some dayOne
  filesSnapshot := some ⟨[(path, "a")], List.nodup_singleton path⟩

def plainOptions : PackageOptions where
  sourceWorkerId := "worker-1"
  targetWorkerId := none
  ttlMs := none
  secretPolicy := none
  transportSecret := none

/-- The scrubbing of a checkpoint without secrets. -/
def nothingSecret (c : Checkpoint String) (_ : SecretScrubPolicy) : Except String (Scrubbed String) :=
  .ok ⟨c, 0, []⟩

def emptyService : Service String where
  manifests := KeyedMap.empty
  blobs := KeyedMap.empty
  lower := by simp [KeyedMap.keys, KeyedMap.empty]

def firstHour : Course where
  authToken := none
  committer := none
  requester := none
  receiptId := "1"
  registeredAt := dayOne
  committedAt := dayOne
  fetchedAt := dayOne

/-- The package of a checkpoint of one file. -/
noncomputable def oneFilePackage (path : String) : Except String (Package String) :=
  packageCheckpoint oneDayHost openOptions nothingSecret (oneFile path) plainOptions dayOne

theorem get_ok {α : Type} {x : Except String α} (h : x.toOption.isSome = true) :
    x = .ok (x.toOption.get h) := by
  cases x with
  | error e => cases h
  | ok a => rfl

theorem plain_packages : (oneFilePackage "a.txt").toOption.isSome = true := by decide +kernel

noncomputable def plainPackage : Package String := (oneFilePackage "a.txt").toOption.get plain_packages

/-- A file with an ordinary name arrives. -/
theorem plain_arrives : Arrives oneDayHost openOptions emptyService plainPackage firstHour := by
  have hadmitted : Admitted oneDayHost openOptions emptyService plainPackage.manifest firstHour :=
    { registers := by decide +kernel
      authorised := by decide
      ids := by decide +kernel
      revision := by decide +kernel
      sized := by decide +kernel
      inTime := by decide +kernel
      committer := by decide
      requester := by decide +kernel
      retained := ⟨[], ["chk-1"], by decide +kernel, by decide +kernel⟩ }
  have hentries : plainPackage.scrubbedCheckpoint.files.entries = [("a.txt", "a")] := by
    decide +kernel
  have hcontent : OneContent oneDayHost emptyService plainPackage.scrubbedCheckpoint.files := by
    constructor
    · rw [hentries]
      simp
    · intro kv _ content h
      cases h
  exact ((transfer_exact oneDayHost openOptions nothingSecret).1 _ _ _ _ (get_ok plain_packages)
    emptyService firstHour (by decide +kernel)).mpr ⟨hadmitted, by decide +kernel, hcontent⟩

/-! What does not arrive, and what stays missing. -/

theorem proto_packages : (oneFilePackage "__proto__").toOption.isSome = true := by decide +kernel

noncomputable def protoPackage : Package String :=
  (oneFilePackage "__proto__").toOption.get proto_packages

/-- The manifest of the plain package with its hash in upper case. -/
noncomputable def upperManifest : Manifest :=
  { plainPackage.manifest with
    blobHashes := ⟨[("a.txt", hashOfA.map Char.toUpper)], List.nodup_singleton "a.txt"⟩ }

def upperUpload : Upload String := ⟨hashOfA.map Char.toUpper, "a", none⟩

/-- A file named as the prototype is packaged and does not arrive; a hash in upper case is registered,
uploaded and missing still. -/
theorem proto_lost_upper_missing :
    (oneFilePackage "__proto__" = .ok protoPackage ∧
      emptyService.isCommitted protoPackage.manifest.checkpointId = false ∧
      ¬ Arrives oneDayHost openOptions emptyService protoPackage firstHour) ∧
    ∃ r s₁ t, Service.registerManifest oneDayHost openOptions upperManifest none dayOne emptyService =
        (.ok r, s₁) ∧
      [upperUpload].forM (Upload.call oneDayHost openOptions) s₁ = (.ok (), t) ∧
      (∀ hash ∈ upperManifest.blobHashes.ownValues, hash ∈ [upperUpload].map Upload.blobHash) ∧
      t.missingBlobs upperManifest ≠ [] := by
  refine ⟨⟨get_ok proto_packages, by decide, ?_⟩, ?_⟩
  · intro h
    obtain ⟨rebuilt, t, htransfer, -⟩ := h _ (List.Perm.refl _)
    have hfails : (transfer oneDayHost openOptions protoPackage firstHour
        (emptyService.register protoPackage.manifest).1.missingBlobHashes emptyService).1.isOk =
          false := by
      decide +kernel
    rw [htransfer] at hfails
    cases hfails
  · have hregister : Service.registerManifest oneDayHost openOptions upperManifest none dayOne
        emptyService = (.ok (emptyService.register upperManifest).1,
          (emptyService.register upperManifest).2) :=
      Service.registerManifest_ok.mpr ⟨by decide +kernel, Service.checkManifest_ok.mp (by decide +kernel),
        rfl⟩
    have hput : Service.putBlob oneDayHost openOptions upperUpload.blobHash "a" none
        (emptyService.register upperManifest).2 =
          (.ok _, (emptyService.register upperManifest).2.upload upperUpload.blobHash "a") :=
      Service.putBlob_ok.mpr ⟨by decide +kernel, by decide +kernel, rfl, rfl⟩
    refine ⟨_, _, (emptyService.register upperManifest).2.upload upperUpload.blobHash "a", hregister, ?_,
      by decide +kernel, by decide +kernel⟩
    exact Call.bind_ok.mpr ⟨(), _, Call.bind_ok.mpr ⟨_, _, hput, rfl⟩, rfl⟩

end Wazir.Checkpoints.Transfer
