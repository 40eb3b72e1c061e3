import Wazir.Checkpoints.Transfer

/-! The calls of a transfer one by one: what each has checked when it returns, what it leaves, and
what the package, the service and the bundle know of the files. -/

namespace Wazir.Checkpoints.Transfer

variable {Content : Type} {host : Host Content} {opts : Options}

/-! A package. -/

/-- The entries of the files with the hash of each content. -/
def hashed (host : Host Content) (files : List (String × Content)) : List (String × String) :=
  files.map fun kv => (kv.1, host.computeBlobHash kv.2)

/-- The entries of the blobs. -/
def blobEntries (host : Host Content) (files : List (String × Content)) : List (String × Content) :=
  files.map fun kv => (host.computeBlobHash kv.2, kv.2)

theorem packFile_ok {id : String} {packed out : Packed Content} {file : String × Content}
    (h : packFile host opts id packed file = .ok out) :
    validateSafeCheckpointPath file.1 = .ok () ∧
      opts.maxFileBytes.lt (.finite (host.byteLength file.2)) = false ∧
      out = ⟨packed.blobHashes.assign file.1 (host.computeBlobHash file.2),
        packed.blobs.assign (host.computeBlobHash file.2) file.2,
        packed.totalBytes + host.byteLength file.2⟩ := by
  simp only [packFile, except_bind_eq_ok, throwIf_ok] at h
  obtain ⟨⟨⟩, hsafe, ⟨⟩, hsize, ⟨⟩, -, hout⟩ := h
  exact ⟨hsafe, hsize, (Except.ok.inj hout).symm⟩

/-- What the loop of the packaging has checked, and what it has gathered. -/
theorem packFiles_ok {id : String} {files : List (String × Content)} {packed out : Packed Content}
    (h : files.foldlM (packFile host opts id) packed = .ok out) :
    (∀ kv ∈ files, validateSafeCheckpointPath kv.1 = .ok () ∧
      opts.maxFileBytes.lt (.finite (host.byteLength kv.2)) = false) ∧
    out = ⟨(hashed host files).foldl (fun m kv => m.assign kv.1 kv.2) packed.blobHashes,
      (blobEntries host files).foldl (fun m kv => m.assign kv.1 kv.2) packed.blobs,
      packed.totalBytes + Service.bytesOf host files⟩ := by
  induction files generalizing packed with
  | nil =>
    rw [List.foldlM_nil] at h
    exact ⟨by simp, (Except.ok.inj h).symm⟩
  | cons kv rest ih =>
    rw [List.foldlM_cons, except_bind_eq_ok] at h
    obtain ⟨next, hkv, hrest⟩ := h
    obtain ⟨hsafe, hsize, rfl⟩ := packFile_ok hkv
    obtain ⟨hall, rfl⟩ := ih hrest
    refine ⟨List.forall_mem_cons.mpr ⟨⟨hsafe, hsize⟩, hall⟩, ?_⟩
    simp [hashed, blobEntries, Service.bytesOf, Nat.add_assoc]

/-- What is known of a package: its manifest and blobs are those of the scrubbed checkpoint. -/
structure Packaged (host : Host Content) (opts : Options) (pkg : Package Content) : Prop where
  hashes : pkg.manifest.blobHashes =
    KeyedMap.ofAssignments (hashed host pkg.scrubbedCheckpoint.files.ownEntries)
  blobs : pkg.blobs = KeyedMap.ofAssignments (blobEntries host pkg.scrubbedCheckpoint.files.ownEntries)
  safe : ∀ kv ∈ pkg.scrubbedCheckpoint.files.ownEntries, validateSafeCheckpointPath kv.1 = .ok ()
  fits : ∀ kv ∈ pkg.scrubbedCheckpoint.files.ownEntries,
    opts.maxFileBytes.lt (.finite (host.byteLength kv.2)) = false
  total : pkg.manifest.totalBytes =
    .finite (Service.bytesOf host pkg.scrubbedCheckpoint.files.ownEntries)
  revision : pkg.manifest.workspaceRevision = pkg.scrubbedCheckpoint.workspaceRevision
  digest : pkg.manifest.snapshotDigest = host.computeSnapshotDigest pkg.scrubbedCheckpoint.files
    pkg.scrubbedCheckpoint.workspaceRevision
  source : pkg.manifest.sourceWorkerId ≠ ""
  members : pkg.manifest.checkpointEnvelope.toCheckpointMembers =
    pkg.scrubbedCheckpoint.toCheckpointMembers
  created : host.parseDate pkg.manifest.checkpointEnvelope.createdAt =
    pkg.scrubbedCheckpoint.createdAt

theorem isoOf_ok {d : JsDate} {text : String} (h : isoOf d = .ok text) :
    ∃ t, d = some t ∧ text = isoText t := by
  cases d with
  | none => cases h
  | some t => exact ⟨t, rfl, (Except.ok.inj h).symm⟩

theorem packageCheckpoint_ok
    {scrub : Checkpoint Content → SecretScrubPolicy → Except String (Scrubbed Content)}
    {checkpoint : Checkpoint Content} {options : PackageOptions} {now : Timestamp}
    {pkg : Package Content}
    (h : packageCheckpoint host opts scrub checkpoint options now = .ok pkg) :
    Packaged host opts pkg := by
  simp only [packageCheckpoint, except_bind_eq_ok, throwIf_ok] at h
  obtain ⟨⟨⟩, hsource, scrubbed, -, packed, hpacked, createdAt, hcreated, expiresAt, -, hpkg⟩ := h
  obtain ⟨hfiles, rfl⟩ := packFiles_ok hpacked
  obtain ⟨t, ht, rfl⟩ := isoOf_ok hcreated
  cases hpkg
  exact {
    hashes := rfl
    blobs := rfl
    safe := fun kv hkv => (hfiles kv hkv).1
    fits := fun kv hkv => (hfiles kv hkv).2
    total := by simp
    revision := rfl
    digest := rfl
    source := by simpa using hsource
    members := rfl
    created := (host.parseDate_iso t).trans ht.symm }

/-! The control plane, call by call. -/

variable {hash : String} {blobs : KeyedMap Content} {authToken : Option String} {m : Manifest}

namespace Service

variable {s t : Service Content}

/-- What a manifest has to be to be registered. -/
structure Registrable (host : Host Content) (opts : Options) (m : Manifest) (now : Timestamp) :
    Prop where
  ids : m.checkpointId ≠ "" ∧ m.executionId ≠ "" ∧ m.sourceWorkerId ≠ ""
  revision : isRevision m.workspaceRevision = true
  inTime : expired host m now = false
  sized : opts.maxCheckpointBytes.lt m.totalBytes = false
  files : ∀ kv ∈ m.blobHashes.ownEntries,
    validateSafeCheckpointPath kv.1 = .ok () ∧ isBlobHash kv.2 = true

theorem checkManifest_ok {now : Timestamp} :
    checkManifest host opts m now = .ok () ↔ Registrable host opts m now := by
  simp only [checkManifest, except_bind_eq_ok, throwIf_ok, forM_except_ok]
  constructor
  · rintro ⟨⟨⟩, hids, ⟨⟩, hrevision, ⟨⟩, htime, ⟨⟩, hsized, hfiles⟩
    refine ⟨by simpa [and_assoc] using hids, by simpa using hrevision, htime, hsized,
      fun kv hkv => ?_⟩
    obtain ⟨⟨⟩, hsafe, hhash⟩ := hfiles kv hkv
    exact ⟨hsafe, by simpa using hhash⟩
  · intro h
    refine ⟨(), by simpa [and_assoc] using h.ids, (), by simpa using h.revision, (), h.inTime, (),
      h.sized, fun kv hkv => ⟨(), (h.files kv hkv).1, by simpa using (h.files kv hkv).2⟩⟩

theorem registerManifest_ok {now : Timestamp} {r : Registration} :
    registerManifest host opts m authToken now s = (.ok r, t) ↔
      opts.verifyAuthentication host authToken (some m) = .ok () ∧ Registrable host opts m now ∧
        s.register m = (r, t) := by
  simp only [registerManifest, Call.bind_ok, Call.lift_ok, Call.act_ok, ← checkManifest_ok]
  constructor
  · rintro ⟨⟨⟩, _, ⟨hauth, rfl⟩, ⟨⟩, _, ⟨hcheck, rfl⟩, hr⟩
    exact ⟨hauth, hcheck, hr⟩
  · rintro ⟨hauth, hcheck, hr⟩
    exact ⟨(), s, ⟨hauth, rfl⟩, (), s, ⟨hcheck, rfl⟩, hr⟩

theorem has_upload {blobHash key : String} {content : Content} :
    (s.upload blobHash content).blobs.has key = true ↔
      s.blobs.has key = true ∨ key = blobHash.toLower := by
  rw [upload]
  split_ifs with h
  · exact ⟨.inl, fun hkey => hkey.elim id fun heq => heq ▸ h⟩
  · rw [← KeyedMap.mem_keys, ← KeyedMap.mem_keys, KeyedMap.mem_keys_set, or_comm]

theorem get_upload {blobHash key : String} {content : Content} :
    (s.upload blobHash content).blobs.get key =
      (s.blobs.get key).or (if key = blobHash.toLower then some content else none) := by
  rw [upload]
  split_ifs with h hkey hkey
  · subst hkey
    obtain ⟨c, hc⟩ := Option.isSome_iff_exists.mp h
    rw [hc, Option.some_or]
  · rw [Option.or_none]
  · subst hkey
    rw [KeyedMap.get_set, if_pos rfl, Option.not_isSome_iff_eq_none.mp h, Option.none_or]
  · rw [KeyedMap.get_set, if_neg hkey, Option.or_none]

theorem upload_manifests (blobHash : String) (content : Content) :
    (s.upload blobHash content).manifests = s.manifests := by
  rw [upload]
  split_ifs <;> rfl

theorem putBlob_ok {blobHash : String} {content : Content} {r : BlobReceipt} :
    putBlob host opts blobHash content authToken s = (.ok r, t) ↔
      opts.verifyAuthentication host authToken none = .ok () ∧
        checkBlob host opts blobHash content = .ok () ∧
        r = ⟨blobHash.toLower, host.byteLength content, s.blobs.has blobHash.toLower⟩ ∧
        t = s.upload blobHash content := by
  simp only [putBlob, Call.bind_ok, Call.lift_ok, Call.act_ok]
  constructor
  · rintro ⟨⟨⟩, _, ⟨hauth, rfl⟩, ⟨⟩, _, ⟨hcheck, rfl⟩, hr⟩
    cases hr
    exact ⟨hauth, hcheck, rfl, rfl⟩
  · rintro ⟨hauth, hcheck, rfl, rfl⟩
    exact ⟨(), s, ⟨hauth, rfl⟩, (), s, ⟨hcheck, rfl⟩, rfl⟩

/-! Retention. -/

theorem evict_append {max : JsNumber} {ids gone kept : List String}
    (h : evict max ids = (gone, .ok kept)) : gone ++ kept = ids := by
  induction ids generalizing gone with
  | nil =>
    rw [evict] at h
    split_ifs at h
    · cases h
    · cases h
      rfl
  | cons id rest ih =>
    rw [evict] at h
    split_ifs at h
    · cases hrest : evict max rest with
      | mk gone' kept' =>
        rw [hrest] at h
        cases h
        rw [List.cons_append, ih hrest]
    · cases h
      rfl

/-- When an entry was committed, if it was. -/
def stamp (entry : Entry) : Bool × Option ℤ := (entry.committed, entry.committedAtMs)

def stamps (manifests : KeyedMap Entry) : List (String × Bool × Option ℤ) :=
  manifests.entries.map fun kv => (kv.1, stamp kv.2)

/-- By the time of the commit. -/
def compareStamps (a b : String × Bool × Option ℤ) : Ordering :=
  compare (a.2.2.getD 0) (b.2.2.getD 0)

theorem committedIds_eq (m : KeyedMap Entry) : committedIds m =
    (sortBy compareStamps ((stamps m).filter fun kv => kv.2.1)).map Prod.fst := by
  have hsort : sortBy compareStamps ((m.entries.filter fun kv => kv.2.committed).map
      fun kv => (kv.1, stamp kv.2)) = (sortBy (fun a b : String × Entry =>
        compare (a.2.committedAtMs.getD 0) (b.2.committedAtMs.getD 0))
          (m.entries.filter fun kv => kv.2.committed)).map fun kv => (kv.1, stamp kv.2) :=
    sortBy_map (fun _ _ => rfl) _
  rw [stamps, List.filter_map]
  refine Eq.trans ?_ (congrArg (List.map Prod.fst) hsort.symm)
  rw [List.map_map]
  rfl

theorem committedIds_stamps {manifests other : KeyedMap Entry} (h : stamps manifests = stamps other) :
    committedIds manifests = committedIds other := by
  rw [committedIds_eq, committedIds_eq, h]

/-- Which entry is committed does not matter to the retention, only when. -/
theorem committedIds_set {manifests : KeyedMap Entry} {id : String} {first entry other : Entry}
    (h : stamp entry = stamp other) :
    committedIds ((manifests.set id first).set id entry) = committedIds (manifests.set id other) := by
  apply committedIds_stamps
  rw [stamps, stamps, KeyedMap.set, KeyedMap.set, KeyedMap.set]
  simp only [defineMember_defineMember]
  rw [defineMember_map stamp, defineMember_map stamp, h]

theorem committedIds_nodup (manifests : KeyedMap Entry) : (committedIds manifests).Nodup := by
  have hperm := List.perm_insertionSort (fun a b : String × Entry =>
    compare (a.2.committedAtMs.getD 0) (b.2.committedAtMs.getD 0) ≠ .gt)
    (manifests.entries.filter fun kv => kv.2.committed)
  exact (hperm.map Prod.fst).nodup_iff.mpr (manifests.distinct.sublist (List.filter_sublist.map _))

theorem mem_committedIds {manifests : KeyedMap Entry} {id : String} :
    id ∈ committedIds manifests ↔ ∃ entry, manifests.get id = some entry ∧ entry.committed = true := by
  simp only [committedIds, List.mem_map, mem_sortBy, List.mem_filter]
  constructor
  · rintro ⟨⟨_, entry⟩, ⟨hmem, hcommitted⟩, rfl⟩
    exact ⟨entry, manifests.mem_entries.mp hmem, hcommitted⟩
  · rintro ⟨entry, hget, hcommitted⟩
    exact ⟨(id, entry), ⟨manifests.mem_entries.mpr hget, hcommitted⟩, rfl⟩

theorem get_deleteManifests (gone : List String) (id : String) :
    (s.deleteManifests gone).manifests.get id = if id ∈ gone then none else s.manifests.get id := by
  have hfold : ∀ manifests : KeyedMap Entry, (gone.foldl KeyedMap.delete manifests).get id =
      if id ∈ gone then none else manifests.get id := by
    induction gone with
    | nil => exact fun manifests => rfl
    | cons x rest ih =>
      intro manifests
      rw [List.foldl_cons, ih, KeyedMap.get_delete]
      by_cases hx : id = x
      · simp [hx]
      · simp [hx]
  exact hfold s.manifests

theorem get_garbageCollect {content : Content} (h : s.garbageCollect.blobs.get hash = some content) :
    s.blobs.get hash = some content := by
  rw [garbageCollect, KeyedMap.get_filter] at h
  exact (Option.filter_eq_some_iff.mp h).1

/-- A blob that a manifest names is not collected. -/
theorem garbageCollect_kept {id hash : String} {entry : Entry} (hget : s.manifests.get id = some entry)
    (hhash : hash ∈ entry.manifest.blobHashes.ownValues) :
    s.garbageCollect.blobs.get hash.toLower = s.blobs.get hash.toLower := by
  have hreferenced : references s.manifests hash.toLower = true := by
    apply List.any_eq_true.mpr
    exact ⟨(id, entry), s.manifests.mem_entries.mpr hget,
      List.any_eq_true.mpr ⟨hash, hhash, by simp⟩⟩
  rw [garbageCollect, KeyedMap.get_filter]
  cases s.blobs.get hash.toLower with
  | none => rfl
  | some content => simp [hreferenced]

/-- What the retention leaves. -/
theorem enforceRetentionLimits_ok {u : Unit} :
    enforceRetentionLimits opts s = (.ok u, t) ↔ ∃ gone kept,
      evict opts.maxStoredCheckpoints (committedIds s.manifests) = (gone, .ok kept) ∧
        t = if (JsNumber.finite kept.length).le opts.maxStoredCheckpoints then
          (s.deleteManifests gone).garbageCollect else s.deleteManifests gone := by
  rw [enforceRetentionLimits]
  rcases evict opts.maxStoredCheckpoints (committedIds s.manifests) with ⟨gone, _ | kept⟩
  · simp
  · constructor
    · intro h
      cases h
      exact ⟨gone, kept, rfl, rfl⟩
    · rintro ⟨_, _, heq, rfl⟩
      cases heq
      rfl

/-- What the retention does to an entry and to the blobs that it names. -/
theorem retention {id : String} {entry : Entry} {u : Unit} (hget : s.manifests.get id = some entry)
    (h : enforceRetentionLimits opts s = (.ok u, t)) : ∃ gone kept,
      evict opts.maxStoredCheckpoints (committedIds s.manifests) = (gone, .ok kept) ∧
      t.manifests.get id = (if id ∈ gone then none else some entry) ∧
      (∀ key content, t.blobs.get key = some content → s.blobs.get key = some content) ∧
      (id ∉ gone → ∀ hash ∈ entry.manifest.blobHashes.ownValues,
        t.blobs.get hash.toLower = s.blobs.get hash.toLower) := by
  obtain ⟨gone, kept, hevict, rfl⟩ := enforceRetentionLimits_ok.mp h
  have hleft : (s.deleteManifests gone).manifests.get id = if id ∈ gone then none else some entry := by
    rw [get_deleteManifests, hget]
  refine ⟨gone, kept, hevict, ?_, ?_, ?_⟩
  · split_ifs at hleft ⊢ <;> exact hleft
  · intro key content hcontent
    split_ifs at hcontent
    · have := get_garbageCollect hcontent
      exact this
    · exact hcontent
  · intro hkept hash hhash
    rw [if_neg hkept] at hleft
    split_ifs
    · exact garbageCollect_kept hleft hhash
    · rfl

/-! Commits and downloads. -/

theorem checkCommit_ok {id : String} {entry : Entry} {authToken source : Option String}
    {now : Timestamp} : checkCommit host opts id entry authToken source now = .ok () ↔
      opts.verifyAuthentication host authToken none = .ok () ∧
        ((given source).any fun worker => worker ≠ entry.manifest.sourceWorkerId) = false ∧
        expired host entry.manifest now = false := by
  simp only [checkCommit, except_bind_eq_ok, throwIf_ok]
  constructor
  · rintro ⟨⟨⟩, hauth, ⟨⟩, hworker, htime⟩
    exact ⟨hauth, hworker, htime⟩
  · rintro ⟨hauth, hworker, htime⟩
    exact ⟨(), hauth, (), hworker, htime⟩

/-- The commit of a manifest that has not been committed. -/
theorem commitCheckpoint_ok {id : String} {entry : Entry} (hget : s.manifests.get id = some entry)
    (hfresh : entry.committed = false) {authToken source : Option String} {receiptId : String}
    {now : Timestamp} {r : Receipt} :
    commitCheckpoint host opts id authToken source receiptId now s = (.ok r, t) ↔
      checkCommit host opts id entry authToken source now = .ok () ∧
        ∃ total, s.checkComplete host opts id entry.manifest = .ok total ∧
          r = receiptOf receiptId id entry total now ∧
          enforceRetentionLimits opts (s.putEntry id (entry.commit r now)) = (.ok (), t) := by
  have hnone : (entry.receipt.filter fun _ => entry.committed) = none := by
    rw [hfresh]
    cases entry.receipt <;> rfl
  simp only [commitCheckpoint, hget, hnone, Call.bind_ok, Call.lift_ok, Call.modify_ok, Call.pure_ok]
  constructor
  · rintro ⟨⟨⟩, _, ⟨hcheck, rfl⟩, total, _, ⟨htotal, rfl⟩, ⟨⟩, _, rfl, ⟨⟩, _, hretention, rfl, rfl⟩
    exact ⟨hcheck, total, htotal, rfl, hretention⟩
  · rintro ⟨hcheck, total, htotal, rfl, hretention⟩
    exact ⟨(), s, ⟨hcheck, rfl⟩, total, s, ⟨htotal, rfl⟩, (), _, rfl, (), t, hretention, rfl, rfl⟩

/-- The bundle of a manifest that has been committed. -/
theorem getBundle_ok {id : String} {entry : Entry} {receipt : Receipt}
    (hget : s.manifests.get id = some entry) (hcommitted : entry.committed = true)
    (hreceipt : entry.receipt = some receipt) {authToken requester : Option String} {now : Timestamp}
    {b : Bundle Content} : getBundle host opts id authToken requester now s = (.ok b, t) ↔
      opts.verifyAuthentication host authToken none = .ok () ∧
        pastExpiry host entry.manifest now = false ∧ forAnother entry.manifest requester = false ∧
        ∃ blobs, bundleBlobs s.blobs id entry.manifest = .ok blobs ∧
          b = ⟨entry.manifest, blobs, downloaded receipt requester now⟩ ∧
          t = s.putEntry id { entry with receipt := some (downloaded receipt requester now) } := by
  have hsome : ((s.manifests.get id).bind fun entry =>
      (entry.receipt.filter fun _ => entry.committed).map fun receipt => (entry, receipt)) =
        some (entry, receipt) := by
    rw [hget]
    simp [hcommitted, hreceipt]
  simp only [getBundle, hsome]
  cases hpast : pastExpiry host entry.manifest now with
  | true => simp [throwIf]
  | false =>
    simp only [Bool.false_eq_true, if_false, Call.bind_ok, Call.lift_ok, Call.modify_ok, Call.pure_ok,
      throwIf_ok, true_and]
    constructor
    · rintro ⟨⟨⟩, _, ⟨hauth, rfl⟩, ⟨⟩, _, ⟨hother, rfl⟩, blobs, _, ⟨hblobs, rfl⟩, ⟨⟩, _, rfl, rfl, rfl⟩
      exact ⟨hauth, hother, blobs, hblobs, rfl, rfl⟩
    · rintro ⟨hauth, hother, blobs, hblobs, rfl, rfl⟩
      exact ⟨(), s, ⟨hauth, rfl⟩, (), s, ⟨hother, rfl⟩, blobs, s, ⟨hblobs, rfl⟩, (), _, rfl, rfl, rfl⟩

theorem getBundle_absent {id : String} (hget : s.manifests.get id = none)
    {authToken requester : Option String} {now : Timestamp} {b : Bundle Content} :
    getBundle host opts id authToken requester now s ≠ (.ok b, t) := by
  intro h
  rw [getBundle, hget] at h
  cases h

theorem bundledBlob_ok {id hash : String} {file : String × Content} :
    bundledBlob blobs id hash = .ok file ↔
      ∃ content, blobs.get hash.toLower = some content ∧ file = (hash.toLower, content) := by
  rw [bundledBlob]
  cases blobs.get hash.toLower with
  | none => simp
  | some content => simp [eq_comm]

/-- The blobs of a bundle are those that the service has. -/
theorem bundleBlobs_ok {blobs out : KeyedMap Content} {id : String}
    (hlower : ∀ hash ∈ m.uniqueHashes, hash.toLower = hash ∧ hash ≠ "__proto__")
    (h : bundleBlobs blobs id m = .ok out) (hhash : hash ∈ m.uniqueHashes) :
    ∃ content, out.get hash = some content ∧ blobs.get hash = some content := by
  obtain ⟨files, hfiles, rfl⟩ := except_map_eq_ok.mp h
  have hforall := mapM_ok.mp hfiles
  have hproto := (hlower hash hhash).2
  have hmem : hash ∈ (files.reverse.map Prod.fst) := by
    obtain ⟨file, hfile, hok⟩ := exists_of_forall₂ hforall hhash
    obtain ⟨content, -, rfl⟩ := bundledBlob_ok.mp hok
    exact List.mem_map.mpr ⟨_, List.mem_reverse.mpr hfile, (hlower hash hhash).1⟩
  have hsome : (KeyedMap.ofAssignments files).get hash ≠ none := by
    rwa [KeyedMap.ofAssignments_get _ hproto, ne_eq, lookup_eq_none_mem, not_not]
  obtain ⟨content, hcontent⟩ := Option.ne_none_iff_exists'.mp hsome
  refine ⟨content, hcontent, ?_⟩
  rw [KeyedMap.ofAssignments_get _ hproto] at hcontent
  obtain ⟨hash', -, hok⟩ := exists_of_forall₂ hforall.flip
    (List.mem_reverse.mp (mem_of_lookup hcontent))
  obtain ⟨content', hget, heq⟩ := bundledBlob_ok.mp hok
  cases heq
  exact hget

theorem bundleBlobs_complete {id : String}
    (h : ∀ hash ∈ m.uniqueHashes, blobs.has hash.toLower = true) :
    ∃ out, bundleBlobs blobs id m = .ok out := by
  have hfiles := mapM_total (f := bundledBlob blobs id) (l := m.uniqueHashes) fun hash hhash => by
    obtain ⟨content, hcontent⟩ := Option.isSome_iff_exists.mp (h hash hhash)
    exact ⟨(hash.toLower, content), bundledBlob_ok.mpr ⟨content, hcontent, rfl⟩⟩
  obtain ⟨files, hfiles⟩ := hfiles
  exact ⟨KeyedMap.ofAssignments files, except_map_eq_ok.mpr ⟨files, hfiles, rfl⟩⟩

theorem committedFile_ok {file : String × String} {out : String × Content} :
    committedFile host opts blobs file = .ok out ↔
      ∃ content, blobs.get file.2.toLower = some content ∧
        opts.maxFileBytes.lt (.finite (host.byteLength content)) = false ∧ out = (file.1, content) := by
  rw [committedFile]
  cases blobs.get file.2.toLower with
  | none => simp
  | some content =>
    simp only [except_bind_eq_ok, throwIf_ok, Option.some.injEq, exists_eq_left']
    constructor
    · rintro ⟨⟨⟩, hsize, hout⟩
      exact ⟨hsize, (Except.ok.inj hout).symm⟩
    · rintro ⟨hsize, rfl⟩
      exact ⟨(), hsize, rfl⟩

theorem reconstructedFile_ok {file : String × String} {out : String × Content} :
    reconstructedFile host blobs file = .ok out ↔
      validateSafeCheckpointPath file.1 = .ok () ∧
        ∃ content, (blobs.get file.2.toLower).or (blobs.get file.2) = some content ∧
          host.computeBlobHash content = file.2.toLower ∧ out = (file.1, content) := by
  simp only [reconstructedFile, except_bind_eq_ok]
  cases (blobs.get file.2.toLower).or (blobs.get file.2) with
  | none => simp
  | some content =>
    simp only [except_bind_eq_ok, throwIf_ok, Option.some.injEq, exists_eq_left']
    constructor
    · rintro ⟨⟨⟩, hsafe, ⟨⟩, hhash, hout⟩
      exact ⟨hsafe, by simpa using hhash, (Except.ok.inj hout).symm⟩
    · rintro ⟨hsafe, hhash, rfl⟩
      exact ⟨(), hsafe, (), by simpa using hhash, rfl⟩

theorem reconstructCheckpoint_ok {c : Checkpoint Content} :
    reconstructCheckpoint host opts m blobs = .ok c ↔ opts.badSignature host m = false ∧
      ∃ files, m.blobHashes.ownEntries.mapM (reconstructedFile host blobs) = .ok files ∧
        opts.maxCheckpointBytes.lt (.finite (bytesOf host files)) = false ∧
        host.computeSnapshotDigest (KeyedMap.ofAssignments files) m.workspaceRevision =
          m.snapshotDigest ∧
        c = { m.checkpointEnvelope with
          createdAt := host.parseDate m.checkpointEnvelope.createdAt
          filesSnapshot := some (KeyedMap.ofAssignments files) } := by
  simp only [reconstructCheckpoint, except_bind_eq_ok, throwIf_ok]
  constructor
  · rintro ⟨⟨⟩, hsignature, files, hfiles, ⟨⟩, hsize, ⟨⟩, hdigest, hc⟩
    exact ⟨hsignature, files, hfiles, hsize, by simpa using hdigest, (Except.ok.inj hc).symm⟩
  · rintro ⟨hsignature, files, hfiles, hsize, hdigest, rfl⟩
    exact ⟨(), hsignature, files, hfiles, (), hsize, (), by simpa using hdigest, rfl⟩

end Service

/-! What a package says of its files. -/

theorem isBlobHash_proto (h : isBlobHash hash = true) : hash ≠ "__proto__" := by
  rintro rfl
  exact absurd h (by decide)

section Package

variable {pkg : Package Content} (packaged : Packaged host opts pkg) {s t : Service Content}

/-- The content that the service has of a hash, or else is given. -/
def contentAt (s : Service Content) (pkg : Package Content) (hash : String) : Option Content :=
  (s.blobs.get hash).or (pkg.blobs.get hash)

/-- The content that travels for a file. -/
def carried (host : Host Content) (s : Service Content) (pkg : Package Content) (c : Content) :
    Content :=
  (contentAt s pkg (host.computeBlobHash c)).getD c

/-- The files that the other side rebuilds. -/
def carriedFiles (host : Host Content) (s : Service Content) (pkg : Package Content) :
    List (String × Content) :=
  pkg.scrubbedCheckpoint.files.ownEntries.map fun kv => (kv.1, carried host s pkg kv.2)

include packaged

theorem Packaged.blob_of {content : Content} (hproto : hash ≠ "__proto__")
    (h : pkg.blobs.get hash = some content) :
    ∃ kv ∈ pkg.scrubbedCheckpoint.files.ownEntries, kv.2 = content ∧
      host.computeBlobHash content = hash := by
  rw [packaged.blobs, KeyedMap.ofAssignments_get _ hproto] at h
  obtain ⟨kv, hkv, heq⟩ := List.mem_map.mp (List.mem_reverse.mp (mem_of_lookup h))
  cases heq
  exact ⟨kv, hkv, rfl, rfl⟩

theorem Packaged.has_blob {kv : String × Content}
    (hkv : kv ∈ pkg.scrubbedCheckpoint.files.ownEntries) :
    ∃ content, pkg.blobs.get (host.computeBlobHash kv.2) = some content := by
  apply Option.ne_none_iff_exists'.mp
  rw [packaged.blobs, KeyedMap.ofAssignments_get _ (isBlobHash_proto (host.blobHash_hex kv.2)), ne_eq,
    lookup_eq_none_mem, not_not]
  exact List.mem_map.mpr ⟨_, List.mem_reverse.mpr (List.mem_map_of_mem hkv), rfl⟩

theorem Packaged.contentAt_eq {kv : String × Content}
    (hkv : kv ∈ pkg.scrubbedCheckpoint.files.ownEntries) :
    contentAt s pkg (host.computeBlobHash kv.2) = some (carried host s pkg kv.2) := by
  obtain ⟨content, hcontent⟩ := packaged.has_blob hkv
  rw [carried, contentAt, hcontent]
  cases s.blobs.get (host.computeBlobHash kv.2) with
  | none => rfl
  | some c => rfl

theorem Packaged.value (h : hash ∈ pkg.manifest.blobHashes.ownValues) :
    ∃ kv ∈ pkg.scrubbedCheckpoint.files.ownEntries, hash = host.computeBlobHash kv.2 := by
  obtain ⟨⟨path, _⟩, hmem, rfl⟩ := List.mem_map.mp h
  have hentry := (ownOrder_perm _).mem_iff.mp hmem
  rw [packaged.hashes] at hentry
  have hnodup : ((hashed host pkg.scrubbedCheckpoint.files.ownEntries).map Prod.fst).Nodup := by
    rw [hashed, List.map_map]
    exact pkg.scrubbedCheckpoint.files.ownEntries_distinct
  rw [KeyedMap.ofAssignments_entries hnodup] at hentry
  obtain ⟨kv, hkv, heq⟩ := List.mem_map.mp (List.mem_of_mem_filter hentry)
  cases heq
  exact ⟨kv, hkv, rfl⟩

theorem Packaged.hash_of (h : hash ∈ pkg.manifest.uniqueHashes) :
    ∃ kv ∈ pkg.scrubbedCheckpoint.files.ownEntries, hash = host.computeBlobHash kv.2 :=
  packaged.value (List.mem_eraseDups.mp h)

theorem Packaged.lower (h : hash ∈ pkg.manifest.uniqueHashes) :
    hash.toLower = hash ∧ hash ≠ "__proto__" := by
  obtain ⟨kv, -, rfl⟩ := packaged.hash_of h
  exact ⟨host.blobHash_lower kv.2, isBlobHash_proto (host.blobHash_hex kv.2)⟩

/-- Without the prototype among the paths, the manifest has every file. -/
theorem Packaged.entries
    (hproto : "__proto__" ∉ pkg.scrubbedCheckpoint.files.ownEntries.map Prod.fst) :
    pkg.manifest.blobHashes.ownEntries = hashed host pkg.scrubbedCheckpoint.files.ownEntries := by
  have hkeys : (hashed host pkg.scrubbedCheckpoint.files.ownEntries).map Prod.fst =
      pkg.scrubbedCheckpoint.files.ownEntries.map Prod.fst := by
    rw [hashed, List.map_map]
    rfl
  rw [packaged.hashes]
  apply KeyedMap.ownEntries_ofAssignments
  · rw [hkeys]
    exact pkg.scrubbedCheckpoint.files.ownEntries_distinct
  · rwa [hkeys]
  · rw [hashed, KeyedMap.ownOrder_map, KeyedMap.ownOrder_ownEntries]

omit packaged in
theorem carriedFiles_entries
    (hproto : "__proto__" ∉ pkg.scrubbedCheckpoint.files.ownEntries.map Prod.fst) :
    (KeyedMap.ofAssignments (carriedFiles host s pkg)).ownEntries = carriedFiles host s pkg := by
  have hkeys : (carriedFiles host s pkg).map Prod.fst =
      pkg.scrubbedCheckpoint.files.ownEntries.map Prod.fst := by
    rw [carriedFiles, List.map_map]
    rfl
  apply KeyedMap.ownEntries_ofAssignments
  · rw [hkeys]
    exact pkg.scrubbedCheckpoint.files.ownEntries_distinct
  · rwa [hkeys]
  · rw [carriedFiles, KeyedMap.ownOrder_map, KeyedMap.ownOrder_ownEntries]

/-- Files of one hash have one content, the one that is stored if any is. -/
structure OneContent (host : Host Content) (s : Service Content) (files : KeyedMap Content) :
    Prop where
  apart : ∀ kv ∈ files.entries, ∀ kv' ∈ files.entries,
    host.computeBlobHash kv.2 = host.computeBlobHash kv'.2 → kv.2 = kv'.2
  stored : ∀ kv ∈ files.entries, ∀ content,
    s.blobs.get (host.computeBlobHash kv.2) = some content → content = kv.2

theorem Packaged.carried_iff :
    carriedFiles host s pkg = pkg.scrubbedCheckpoint.files.ownEntries ↔
      OneContent host s pkg.scrubbedCheckpoint.files := by
  have hmem : ∀ {kv}, kv ∈ pkg.scrubbedCheckpoint.files.entries ↔
      kv ∈ pkg.scrubbedCheckpoint.files.ownEntries := (ownOrder_perm _).mem_iff.symm
  have hall : carriedFiles host s pkg = pkg.scrubbedCheckpoint.files.ownEntries ↔
      ∀ kv ∈ pkg.scrubbedCheckpoint.files.ownEntries, carried host s pkg kv.2 = kv.2 := by
    rw [carriedFiles]
    conv_lhs => rhs; rw [← List.map_id pkg.scrubbedCheckpoint.files.ownEntries]
    refine List.map_inj_left.trans (forall₂_congr fun kv _ => ?_)
    simp [Prod.ext_iff]
  rw [hall]
  constructor
  · intro h
    constructor
    · intro kv hkv kv' hkv' heq
      rw [← h kv (hmem.mp hkv), ← h kv' (hmem.mp hkv')]
      have hat := packaged.contentAt_eq (s := s) (hmem.mp hkv)
      rw [heq, packaged.contentAt_eq (hmem.mp hkv')] at hat
      exact (Option.some.inj hat).symm
    · intro kv hkv content hget
      have hat := packaged.contentAt_eq (s := s) (hmem.mp hkv)
      rw [contentAt, hget, Option.some_or, h kv (hmem.mp hkv)] at hat
      exact Option.some.inj hat
  · intro h kv hkv
    have hat := packaged.contentAt_eq (s := s) hkv
    rw [contentAt] at hat
    cases hget : s.blobs.get (host.computeBlobHash kv.2) with
    | some content =>
      rw [hget, Option.some_or] at hat
      rw [← Option.some.inj hat]
      exact h.stored kv (hmem.mpr hkv) content hget
    | none =>
      rw [hget, Option.none_or] at hat
      obtain ⟨kv', hkv', heq, hhash⟩ :=
        packaged.blob_of (isBlobHash_proto (host.blobHash_hex kv.2)) hat
      rw [← heq]
      exact h.apart kv' (hmem.mpr hkv') kv (hmem.mpr hkv) (heq ▸ hhash)

end Package

/-! Uploads. -/

section Upload

variable {pkg : Package Content} {s t : Service Content}

def uploaded (pkg : Package Content) (s : Service Content) (hash : String) : Service Content :=
  match pkg.blobs.get hash with
  | some content => s.upload hash content
  | none => s

theorem uploadBlob_state (h : uploadBlob host opts pkg authToken hash s = (.ok (), t)) :
    t = uploaded pkg s hash := by
  rw [uploadBlob] at h
  rw [uploaded]
  cases hget : pkg.blobs.get hash with
  | none =>
    rw [hget] at h
    cases h
  | some content =>
    simp only [hget, Call.bind_ok, Call.pure_ok] at h
    obtain ⟨r, u, hput, -, rfl⟩ := h
    exact (Service.putBlob_ok.mp hput).2.2.2

theorem uploads_manifests (order : List String) :
    (order.foldl (uploaded pkg) s).manifests = s.manifests := by
  induction order generalizing s with
  | nil => rfl
  | cons hash rest ih =>
    rw [List.foldl_cons, ih, uploaded]
    cases pkg.blobs.get hash with
    | none => rfl
    | some content => exact Service.upload_manifests hash content

/-- Each upload gives a blob that was not there. -/
theorem uploads_get {order : List String} (hlower : ∀ hash ∈ order, hash.toLower = hash)
    (key : String) : (order.foldl (uploaded pkg) s).blobs.get key =
      (s.blobs.get key).or (if key ∈ order then pkg.blobs.get key else none) := by
  induction order generalizing s with
  | nil => simp
  | cons hash rest ih =>
    obtain ⟨hhead, hrest⟩ := List.forall_mem_cons.mp hlower
    have hstep : (uploaded pkg s hash).blobs.get key =
        (s.blobs.get key).or (if key = hash then pkg.blobs.get key else none) := by
      rw [uploaded]
      cases hget : pkg.blobs.get hash with
      | none =>
        by_cases hkey : key = hash
        · simp [hkey, hget]
        · simp [hkey]
      | some content =>
        rw [Service.get_upload, hhead]
        by_cases hkey : key = hash
        · simp [hkey, hget]
        · simp [hkey]
    rw [List.foldl_cons, ih hrest, hstep, Option.or_assoc]
    congr 1
    by_cases hkey : key = hash
    · subst hkey
      cases pkg.blobs.get key <;> simp
    · simp [hkey]

theorem Packaged.uploadBlob_ok (packaged : Packaged host opts pkg)
    (hauth : opts.verifyAuthentication host authToken none = .ok ())
    (hhash : hash ∈ pkg.manifest.uniqueHashes) :
    uploadBlob host opts pkg authToken hash s = (.ok (), uploaded pkg s hash) := by
  obtain ⟨kv, hkv, rfl⟩ := packaged.hash_of hhash
  obtain ⟨content, hget⟩ := packaged.has_blob hkv
  obtain ⟨kv', hkv', rfl, hsame⟩ :=
    packaged.blob_of (isBlobHash_proto (host.blobHash_hex kv.2)) hget
  have hcheck : Service.checkBlob host opts (host.computeBlobHash kv.2) kv'.2 = .ok () := by
    simp only [Service.checkBlob, except_bind_eq_ok, throwIf_ok]
    exact ⟨(), by simp [host.blobHash_hex], (), packaged.fits kv' hkv',
      by simp [host.blobHash_lower, hsame]⟩
  simp only [uploadBlob, uploaded, hget, Call.bind_ok, Call.pure_ok]
  exact ⟨_, _, Service.putBlob_ok.mpr ⟨hauth, hcheck, rfl, rfl⟩, trivial, rfl⟩

/-- A service that has registered a package and has got its blobs. -/
structure Ready (host : Host Content) (s : Service Content) (pkg : Package Content)
    (u : Service Content) (entry : Entry) : Prop where
  manifest : entry.manifest = pkg.manifest
  pending : entry.committed = false
  manifests : u.manifests = s.manifests.set pkg.manifest.checkpointId entry
  blobs : ∀ hash ∈ pkg.manifest.uniqueHashes, u.blobs.get hash = contentAt s pkg hash

theorem Packaged.ready (packaged : Packaged host opts pkg)
    (hfresh : s.isCommitted pkg.manifest.checkpointId = false) {order : List String}
    (horder : order.Perm (s.register pkg.manifest).1.missingBlobHashes) :
    ∃ entry, Ready host s pkg (order.foldl (uploaded pkg) (s.register pkg.manifest).2) entry := by
  have hregister : ∃ entry : Entry, (s.register pkg.manifest).1.missingBlobHashes =
      s.missingBlobs pkg.manifest ∧ (s.register pkg.manifest).2 =
        s.putEntry pkg.manifest.checkpointId entry ∧ entry.manifest = pkg.manifest ∧
        entry.committed = false := by
    rw [Service.register, if_neg (by simp [hfresh])]
    exact ⟨_, rfl, rfl, rfl, rfl⟩
  obtain ⟨entry, hmissing, hstate, hmanifest, hopen⟩ := hregister
  rw [hmissing] at horder
  have hlower : ∀ hash ∈ order, hash.toLower = hash := fun hash hhash =>
    (packaged.lower (List.mem_filter.mp (horder.mem_iff.mp hhash)).1).1
  refine ⟨entry, hmanifest, hopen, ?_, fun hash hhash => ?_⟩
  · rw [uploads_manifests, hstate]
    rfl
  · have hsame : (s.register pkg.manifest).2.blobs = s.blobs := by
      rw [hstate]
      rfl
    rw [uploads_get hlower, hsame, contentAt]
    cases hget : s.blobs.get hash with
    | some content => rfl
    | none =>
      have hmem : hash ∈ order := by
        apply horder.mem_iff.mpr
        exact List.mem_filter.mpr ⟨hhash, by simp [KeyedMap.has, hget]⟩
      rw [if_pos hmem]

end Upload

end Wazir.Checkpoints.Transfer
