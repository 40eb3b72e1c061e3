import Wazir.Goals.AuditText

/-! The audit log of one governance instance over a store that revives dates: what is appended is
always found and counted, and the chain verifies exactly when every record keeps its text. -/

namespace Wazir.Goals

open JsValue

/-- One `audit` call that goes through; a clock that shows no date throws before anything is
written. -/
structure AuditAppend where
  now : Timestamp
  event : RawAuditEvent

section Chain

variable (sanitizeUntrustedOutput : String → String) (localeCompare : String → String → Ordering)
  (sha256 : String → String) (store : RevivingStore) (parseDate : String → JsDate)

/-- What `list` gives. -/
def listed (s : AuditStore) : List JsValue := s.map fun kv => store.reload parseDate kv.2

def appendAudit (s : AuditStore) (a : AuditAppend) : AuditStore :=
  let next := nextRecord sanitizeUntrustedOutput localeCompare sha256 (listed store parseDate s)
    (isoText a.now) a.event
  s.put (auditSeqKey next.1) next.2

def appendAll (appends : List AuditAppend) : AuditStore :=
  appends.foldl (appendAudit sanitizeUntrustedOutput localeCompare sha256 store parseDate) []

/-- No string of the record is revived, and no member of it changes its text otherwise. The
number that the event gets plays no part. -/
def AuditAppend.survives (a : AuditAppend) : Bool :=
  !isIsoDateString (isoText a.now) &&
    Goals.survives (sanitizedEvent sanitizeUntrustedOutput a.event 1 (isoText a.now))

/-- The records as they ought to be, from a number and a digest on. -/
def digestAt (n : ℕ) (prev : String) (a : AuditAppend) : String :=
  computeAuditDigest localeCompare sha256 (.str (auditSeqKey (n + 1))) (.str (isoText a.now))
    (.str prev) (sanitizedEvent sanitizeUntrustedOutput a.event (n + 1) (isoText a.now))

def recordAt (n : ℕ) (prev : String) (a : AuditAppend) : JsValue :=
  auditRecord localeCompare sha256 (n + 1) (isoText a.now) (.str prev)
    (sanitizedEvent sanitizeUntrustedOutput a.event (n + 1) (isoText a.now))

def entriesFrom : ℕ → String → List AuditAppend → AuditStore
  | _, _, [] => []
  | n, prev, a :: rest =>
    (auditSeqKey (n + 1), recordAt sanitizeUntrustedOutput localeCompare sha256 n prev a) ::
      entriesFrom (n + 1) (digestAt sanitizeUntrustedOutput localeCompare sha256 n prev a) rest

def lastDigest : ℕ → String → List AuditAppend → String
  | _, prev, [] => prev
  | n, prev, a :: rest =>
    lastDigest (n + 1) (digestAt sanitizeUntrustedOutput localeCompare sha256 n prev a) rest

/-- What the digest of a record is taken of. -/
def digestedAt (n : ℕ) (prev : String) (a : AuditAppend) : JsValue :=
  digested (.str (auditSeqKey (n + 1))) (.str (isoText a.now)) (.str prev)
    (sanitizedEvent sanitizeUntrustedOutput a.event (n + 1) (isoText a.now))

end Chain

/-! Redacted events. -/

section Redacted

variable {sanitizeUntrustedOutput : String → String}

theorem sanitizeItems_eq (items : List JsValue) : sanitizeItems sanitizeUntrustedOutput items =
    items.map (sanitizeAuditValue sanitizeUntrustedOutput) := by
  induction items with
  | nil => rfl
  | cons v rest ih => rw [sanitizeItems, ih, List.map_cons]

/-- A redacted member is a marker or a redacted value, under a safe key. -/
theorem mem_sanitizeFields {fields : List (String × JsValue)} {kv : String × JsValue}
    (h : kv ∈ sanitizeFields sanitizeUntrustedOutput fields) : kv.1 ∉ unsafeKeys ∧
      (kv.2 = .str "[REDACTED]" ∨
        ∃ v, (kv.1, v) ∈ fields ∧ kv.2 = sanitizeAuditValue sanitizeUntrustedOutput v) := by
  induction fields with
  | nil => cases h
  | cons head rest ih =>
    obtain ⟨k, v⟩ := head
    have hrest : kv ∈ sanitizeFields sanitizeUntrustedOutput rest → kv.1 ∉ unsafeKeys ∧
        (kv.2 = .str "[REDACTED]" ∨ ∃ v', (kv.1, v') ∈ (k, v) :: rest ∧
          kv.2 = sanitizeAuditValue sanitizeUntrustedOutput v') := by
      intro hmem
      obtain ⟨hkey, hvalue⟩ := ih hmem
      refine ⟨hkey, hvalue.imp id ?_⟩
      rintro ⟨v', hv', heq⟩
      exact ⟨v', List.mem_cons_of_mem _ hv', heq⟩
    unfold sanitizeFields at h
    split_ifs at h with hkey hredact
    · exact hrest h
    · rcases List.mem_cons.mp h with rfl | h
      · exact ⟨hkey, .inl rfl⟩
      · exact hrest h
    · rcases List.mem_cons.mp h with rfl | h
      · exact ⟨hkey, .inr ⟨v, List.mem_cons_self, rfl⟩⟩
      · exact hrest h

theorem safeKeys_sanitize (v : JsValue) :
    safeKeys (sanitizeAuditValue sanitizeUntrustedOutput v) = true := by
  induction v using JsValue.inductionOn with
  | arr items ih =>
    rw [sanitizeAuditValue, safeKeys_arr, sanitizeItems_eq]
    exact List.forall_mem_map.mpr ih
  | obj fields ih =>
    rw [sanitizeAuditValue, safeKeys_obj]
    refine ⟨fun kv hkv => (mem_sanitizeFields hkv).1, fun kv hkv => ?_⟩
    rcases (mem_sanitizeFields hkv).2 with h | ⟨v, hv, h⟩
    · rw [h]
      rfl
    · rw [h]
      exact ih _ hv
  | _ => rfl

end Redacted

/-! Keys. -/

theorem notIso_seqKey (n : ℕ) : isIsoDateString (auditSeqKey n) = false := by
  by_contra h
  have hdash := dash_of_iso (Bool.not_eq_false _ ▸ h)
  exact absurd (padded_digits _ hdash) (by decide)

theorem auditSeqKey_inj {m n : ℕ} (h : auditSeqKey m = auditSeqKey n) : m = n := padded_inj h

section Records

variable {sanitizeUntrustedOutput : String → String} {localeCompare : String → String → Ordering}
  {sha256 : String → String} {store : RevivingStore} {parseDate : String → JsDate} {n : ℕ}
  {prev : String} {a : AuditAppend} {as : List AuditAppend}

/-- A record as a store gives it back. -/
theorem reload_recordAt (hsha : ∀ text, (sha256 text).length = 64)
    (hprev : isIsoDateString prev = false) :
    store.reload parseDate (recordAt sanitizeUntrustedOutput localeCompare sha256 n prev a) =
      .obj [("seq", .str (auditSeqKey (n + 1))), ("seqNumber", .nat (n + 1)),
        ("recordedAt", store.reload parseDate (.str (isoText a.now))),
        ("event", store.reload parseDate
          (sanitizedEvent sanitizeUntrustedOutput a.event (n + 1) (isoText a.now))),
        ("prevDigest", .str prev),
        ("digest", .str (digestAt sanitizeUntrustedOutput localeCompare sha256 n prev a))] := by
  have hdigest : ∀ text, isIsoDateString (sha256 text) = false :=
    fun text => notIso_long (by rw [hsha]; decide)
  have hsafe : SafeFields [("seq", JsValue.str (auditSeqKey (n + 1))), ("seqNumber", .nat (n + 1)),
      ("recordedAt", .str (isoText a.now)),
      ("event", sanitizedEvent sanitizeUntrustedOutput a.event (n + 1) (isoText a.now)),
      ("prevDigest", .str prev), ("digest", .str (digestAt sanitizeUntrustedOutput localeCompare
        sha256 n prev a))] := by
    simp [SafeFields, unsafeKeys]
  have hdef : ∀ kv ∈ [("seq", JsValue.str (auditSeqKey (n + 1))), ("seqNumber", .nat (n + 1)),
      ("recordedAt", .str (isoText a.now)),
      ("event", sanitizedEvent sanitizeUntrustedOutput a.event (n + 1) (isoText a.now)),
      ("prevDigest", .str prev), ("digest", .str (digestAt sanitizeUntrustedOutput localeCompare
        sha256 n prev a))], kv.2.isUndefined = false := by
    simp only [List.forall_mem_cons, List.not_mem_nil, false_imp_iff, implies_true, and_true]
    exact ⟨rfl, rfl, rfl, rfl, rfl, rfl⟩
  refine (reload_full store parseDate hsafe hdef).trans ?_
  have hkept : isIsoDateString (digestAt sanitizeUntrustedOutput localeCompare sha256 n prev a) =
      false := hdigest _
  simp only [List.map_cons, List.map_nil, reload_str, reload_nat, notIso_seqKey, hprev, hkept,
    Bool.false_eq_true, if_false]

/-- What is digested of a record that was given back. -/
theorem digested_reload (hprev : isIsoDateString prev = false) :
    digested (.str (auditSeqKey (n + 1))) (store.reload parseDate (.str (isoText a.now)))
      (.str prev) (store.reload parseDate
        (sanitizedEvent sanitizeUntrustedOutput a.event (n + 1) (isoText a.now))) =
      store.reload parseDate (digestedAt sanitizeUntrustedOutput n prev a) := by
  have hsafe : SafeFields [("seq", JsValue.str (auditSeqKey (n + 1))),
      ("recordedAt", .str (isoText a.now)), ("prevDigest", .str prev),
      ("event", sanitizedEvent sanitizeUntrustedOutput a.event (n + 1) (isoText a.now))] := by
    simp [SafeFields, unsafeKeys]
  have hdef : ∀ kv ∈ [("seq", JsValue.str (auditSeqKey (n + 1))),
      ("recordedAt", .str (isoText a.now)), ("prevDigest", .str prev),
      ("event", sanitizedEvent sanitizeUntrustedOutput a.event (n + 1) (isoText a.now))],
      kv.2.isUndefined = false := by
    simp only [List.forall_mem_cons, List.not_mem_nil, false_imp_iff, implies_true, and_true]
    exact ⟨rfl, rfl, rfl, rfl⟩
  rw [digestedAt, digested, digested, reload_full store parseDate hsafe hdef]
  simp only [List.map_cons, List.map_nil, reload_str, notIso_seqKey, hprev, Bool.false_eq_true,
    if_false]

theorem safeKeys_digestedAt :
    safeKeys (digestedAt sanitizeUntrustedOutput n prev a) = true := by
  rw [digestedAt, digested, safeKeys_obj]
  refine ⟨by simp [SafeFields, unsafeKeys], ?_⟩
  simp only [List.forall_mem_cons, List.not_mem_nil, false_imp_iff, implies_true, and_true]
  exact ⟨rfl, rfl, rfl, safeKeys_sanitize _⟩

/-- The number of an event is a number either way. -/
theorem survives_event {raw : RawAuditEvent} {recordedAt : String} (m k : ℕ) :
    survives (sanitizedEvent sanitizeUntrustedOutput raw m recordedAt) =
      survives (sanitizedEvent sanitizeUntrustedOutput raw k recordedAt) := by
  obtain ⟨seq, type, runId, targetId, attemptId, executionId, timestamp, data⟩ := raw
  cases seq with
  | none => rfl
  | some seq => cases seq <;> rfl

theorem survives_digested {seq recordedAt prevDigest : String} {event : JsValue}
    (h : event.isUndefined = false) :
    survives (digested (.str seq) (.str recordedAt) (.str prevDigest) event) =
      (!isIsoDateString seq && (!isIsoDateString recordedAt && (!isIsoDateString prevDigest &&
        survives event))) := by
  have hstr : ∀ s, (JsValue.str s).isUndefined = false := fun _ => rfl
  simp [digested, survives, survivesFields, h, hstr]

theorem survives_digestedAt (hprev : isIsoDateString prev = false) :
    survives (digestedAt sanitizeUntrustedOutput n prev a) = true ↔
      a.survives sanitizeUntrustedOutput = true := by
  rw [digestedAt, survives_digested rfl, survives_event (n + 1) 1, notIso_seqKey, hprev,
    AuditAppend.survives]
  simp

theorem notIso_digestAt (hsha : ∀ text, (sha256 text).length = 64) :
    isIsoDateString (digestAt sanitizeUntrustedOutput localeCompare sha256 n prev a) = false :=
  notIso_long (by rw [digestAt, computeAuditDigest, hsha]; decide)

/-- What `list` gives of the records. -/
theorem listed_cons : listed store parseDate
    (entriesFrom sanitizeUntrustedOutput localeCompare sha256 n prev (a :: as)) =
      store.reload parseDate (recordAt sanitizeUntrustedOutput localeCompare sha256 n prev a) ::
        listed store parseDate (entriesFrom sanitizeUntrustedOutput localeCompare sha256 (n + 1)
          (digestAt sanitizeUntrustedOutput localeCompare sha256 n prev a) as) := rfl

theorem listed_numbers (hsha : ∀ text, (sha256 text).length = 64)
    (hprev : isIsoDateString prev = false) :
    (listed store parseDate
      (entriesFrom sanitizeUntrustedOutput localeCompare sha256 n prev as)).map seqNumberOf =
        (List.range' (n + 1) as.length).map some := by
  induction as generalizing n prev with
  | nil => rfl
  | cons a rest ih =>
    rw [listed_cons, List.map_cons, ih (notIso_digestAt hsha), reload_recordAt hsha hprev]
    rfl

/-- Every record that is listed has an event and a number. -/
theorem listed_records (hsha : ∀ text, (sha256 text).length = 64)
    (hprev : isIsoDateString prev = false) :
    ∀ v ∈ listed store parseDate
      (entriesFrom sanitizeUntrustedOutput localeCompare sha256 n prev as),
      (v.get "event").truthy = true ∧ (seqNumberOf v).isSome = true := by
  induction as generalizing n prev with
  | nil => intro v hv; cases hv
  | cons a rest ih =>
    rw [listed_cons, List.forall_mem_cons]
    refine ⟨?_, ih (notIso_digestAt hsha)⟩
    rw [reload_recordAt hsha hprev]
    refine ⟨?_, rfl⟩
    cases store <;> rfl

theorem listed_sorted (hsha : ∀ text, (sha256 text).length = 64)
    (hprev : isIsoDateString prev = false) :
    sortBy bySeqNumber (listed store parseDate
      (entriesFrom sanitizeUntrustedOutput localeCompare sha256 n prev as)) =
      listed store parseDate (entriesFrom sanitizeUntrustedOutput localeCompare sha256 n prev as) := by
  refine List.Pairwise.insertionSort_eq ?_
  have hpair : ((listed store parseDate (entriesFrom sanitizeUntrustedOutput localeCompare sha256 n
      prev as)).map seqNumberOf).Pairwise fun x y => x.getD 0 < y.getD 0 := by
    rw [listed_numbers hsha hprev, List.pairwise_map]
    exact List.pairwise_lt_range'
  refine (List.pairwise_map.mp hpair).imp fun h => ?_
  rw [bySeqNumber, Nat.compare_eq_lt.mpr h]
  decide

/-- The last record that is listed has the last number and the last digest. -/
theorem listed_last (hsha : ∀ text, (sha256 text).length = 64)
    (hprev : isIsoDateString prev = false) :
    ∃ record, (listed store parseDate (entriesFrom sanitizeUntrustedOutput localeCompare sha256 n
        prev (a :: as))).getLast? = some record ∧
      seqNumberOf record = some (n + 1 + as.length) ∧
      record.get "digest" = .str (lastDigest sanitizeUntrustedOutput localeCompare sha256 n prev
        (a :: as)) := by
  induction as generalizing n prev a with
  | nil =>
    refine ⟨store.reload parseDate (recordAt sanitizeUntrustedOutput localeCompare sha256 n prev a),
      rfl, ?_, ?_⟩ <;> rw [reload_recordAt hsha hprev] <;> rfl
  | cons b rest ih =>
    obtain ⟨record, hlast, hnumber, hdigest⟩ := ih (n := n + 1) (a := b) (notIso_digestAt hsha)
    refine ⟨record, ?_, ?_, hdigest⟩
    · rw [listed_cons, List.getLast?_cons_of_ne_nil (by rw [listed_cons]; simp)]
      exact hlast
    · rw [hnumber, List.length_cons]
      congr 1
      omega

theorem notIso_genesis : isIsoDateString "GENESIS" = false := by decide

theorem nextRecord_entries (hsha : ∀ text, (sha256 text).length = 64) {recordedAt : String}
    {raw : RawAuditEvent} : nextRecord sanitizeUntrustedOutput localeCompare sha256
      (listed store parseDate
        (entriesFrom sanitizeUntrustedOutput localeCompare sha256 0 "GENESIS" as)) recordedAt raw =
      (as.length + 1, auditRecord localeCompare sha256 (as.length + 1) recordedAt
        (.str (lastDigest sanitizeUntrustedOutput localeCompare sha256 0 "GENESIS" as))
        (sanitizedEvent sanitizeUntrustedOutput raw (as.length + 1) recordedAt)) := by
  have hall : (listed store parseDate (entriesFrom sanitizeUntrustedOutput localeCompare sha256 0
      "GENESIS" as)).filter (fun v => (seqNumberOf v).isSome) = listed store parseDate
        (entriesFrom sanitizeUntrustedOutput localeCompare sha256 0 "GENESIS" as) :=
    List.filter_eq_self.mpr fun v hv => (listed_records hsha notIso_genesis v hv).2
  unfold nextRecord
  rw [hall, listed_sorted hsha notIso_genesis]
  cases as with
  | nil => rfl
  | cons a rest =>
    have hlisted : ∃ record, (listed store parseDate (entriesFrom sanitizeUntrustedOutput
          localeCompare sha256 0 "GENESIS" (a :: rest))).getLast? = some record ∧
        seqNumberOf record = some (0 + 1 + rest.length) ∧
        record.get "digest" = .str (lastDigest sanitizeUntrustedOutput localeCompare sha256 0
          "GENESIS" (a :: rest)) := listed_last hsha notIso_genesis
    obtain ⟨record, hlast, hnumber, hdigest⟩ := hlisted
    simp only [hlast, Option.bind_some, hnumber, Option.getD_some, Option.map_some,
      hdigest, List.length_cons, Nat.zero_add, Nat.add_comm 1]

theorem entriesFrom_append :
    entriesFrom sanitizeUntrustedOutput localeCompare sha256 n prev (as ++ [a]) =
      entriesFrom sanitizeUntrustedOutput localeCompare sha256 n prev as ++
        [(auditSeqKey (n + as.length + 1), recordAt sanitizeUntrustedOutput localeCompare sha256
          (n + as.length) (lastDigest sanitizeUntrustedOutput localeCompare sha256 n prev as) a)] := by
  induction as generalizing n prev with
  | nil => rfl
  | cons b rest ih =>
    rw [List.cons_append, entriesFrom, ih, entriesFrom, lastDigest, List.length_cons,
      List.cons_append, Nat.add_right_comm n 1, Nat.add_assoc n]

theorem entriesFrom_keys :
    (entriesFrom sanitizeUntrustedOutput localeCompare sha256 n prev as).map Prod.fst =
      (List.range' (n + 1) as.length).map auditSeqKey := by
  induction as generalizing n prev with
  | nil => rfl
  | cons a rest ih =>
    rw [entriesFrom, List.map_cons, ih, List.length_cons, List.range'_succ, List.map_cons]

theorem entriesFrom_length :
    (entriesFrom sanitizeUntrustedOutput localeCompare sha256 n prev as).length = as.length := by
  rw [← List.length_map Prod.fst, entriesFrom_keys, List.length_map, List.length_range']

theorem mem_entriesFrom_keys {m : ℕ} :
    auditSeqKey m ∈ (entriesFrom sanitizeUntrustedOutput localeCompare sha256 n prev as).map
      Prod.fst ↔ n < m ∧ m ≤ n + as.length := by
  rw [entriesFrom_keys, List.mem_map_of_injective fun _ _ => auditSeqKey_inj, List.mem_range'_1]
  omega

/-- A record goes under a key that no record has yet. -/
theorem AuditStore.put_fresh {s : AuditStore} {key : String} {value : JsValue}
    (h : key ∉ s.map Prod.fst) : s.put key value = s ++ [(key, value)] := by
  have hany : (s.any fun kv => kv.1 = key) = false := by
    rw [List.any_eq_false]
    intro kv hkv heq
    exact h (List.mem_map.mpr ⟨kv, hkv, of_decide_eq_true heq⟩)
  rw [AuditStore.put, hany]
  rfl

/-- The store holds the records as they ought to be: the next number and the last digest are read
back as they were written. -/
theorem appendAll_eq (hsha : ∀ text, (sha256 text).length = 64) :
    appendAll sanitizeUntrustedOutput localeCompare sha256 store parseDate as =
      entriesFrom sanitizeUntrustedOutput localeCompare sha256 0 "GENESIS" as := by
  induction as using List.reverseRecOn with
  | nil => rfl
  | append_singleton as a ih =>
    rw [appendAll, List.foldl_concat, ← appendAll, ih, appendAudit,
      nextRecord_entries hsha, entriesFrom_append, Nat.zero_add]
    exact AuditStore.put_fresh (by rw [mem_entriesFrom_keys]; omega)

/-! Verification. -/

/-- What the digests of the records are taken of. -/
def digestedFrom (sanitizeUntrustedOutput : String → String)
    (localeCompare : String → String → Ordering) (sha256 : String → String) :
    ℕ → String → List AuditAppend → List JsValue
  | _, _, [] => []
  | n, prev, a :: rest =>
    digestedAt sanitizeUntrustedOutput n prev a ::
      digestedFrom sanitizeUntrustedOutput localeCompare sha256 (n + 1)
        (digestAt sanitizeUntrustedOutput localeCompare sha256 n prev a) rest

/-- The hash does not take a digested text and the text that is checked instead for one. -/
def TellsApart (localeCompare : String → String → Ordering) (sha256 : String → String)
    (store : RevivingStore) (parseDate : String → JsDate) (v : JsValue) : Prop :=
  sha256 (String.ofList (canonicalJson localeCompare v)) =
      sha256 (String.ofList (canonicalJson localeCompare (store.reload parseDate v))) →
    canonicalJson localeCompare v = canonicalJson localeCompare (store.reload parseDate v)

theorem digest_kept_iff
    (htells : TellsApart localeCompare sha256 store parseDate
      (digestedAt sanitizeUntrustedOutput n prev a)) (hprev : isIsoDateString prev = false) :
    strictEqual (.str (computeAuditDigest localeCompare sha256 (.str (auditSeqKey (n + 1)))
        (store.reload parseDate (.str (isoText a.now))) (.str prev) (store.reload parseDate
          (sanitizedEvent sanitizeUntrustedOutput a.event (n + 1) (isoText a.now)))))
      (.str (digestAt sanitizeUntrustedOutput localeCompare sha256 n prev a)) = true ↔
      a.survives sanitizeUntrustedOutput = true := by
  have htext : canonicalJson localeCompare (digestedAt sanitizeUntrustedOutput n prev a) =
      canonicalJson localeCompare
        (store.reload parseDate (digestedAt sanitizeUntrustedOutput n prev a)) ↔
        survives (digestedAt sanitizeUntrustedOutput n prev a) = true :=
    canonicalJson_reload_iff store parseDate safeKeys_digestedAt
  rw [computeAuditDigest, digested_reload hprev, digestAt, computeAuditDigest, ← digestedAt,
    strictEqual, decide_eq_true_eq, ← survives_digestedAt hprev, ← htext]
  exact ⟨fun h => htells h.symm, fun h => by rw [h]⟩

/-- One record is checked: its number and its predecessor's digest are right, so its own digest
decides. -/
theorem verifyFrom_record (hsha : ∀ text, (sha256 text).length = 64)
    (hprev : isIsoDateString prev = false)
    (htells : TellsApart localeCompare sha256 store parseDate
      (digestedAt sanitizeUntrustedOutput n prev a)) (count : ℕ) (rest : List JsValue) :
    (verifyFrom localeCompare sha256 count n (.str prev) (store.reload parseDate
      (recordAt sanitizeUntrustedOutput localeCompare sha256 n prev a) :: rest)).valid = true ↔
      a.survives sanitizeUntrustedOutput = true ∧
      (verifyFrom localeCompare sha256 count (n + 1) (.str (digestAt sanitizeUntrustedOutput
        localeCompare sha256 n prev a)) rest).valid = true := by
  rw [← digest_kept_iff htells hprev, reload_recordAt hsha hprev]
  generalize store.reload parseDate (.str (isoText a.now)) = recordedAt
  generalize store.reload parseDate
    (sanitizedEvent sanitizeUntrustedOutput a.event (n + 1) (isoText a.now)) = event
  generalize digestAt sanitizeUntrustedOutput localeCompare sha256 n prev a = digest
  generalize hfields : JsValue.obj [("seq", .str (auditSeqKey (n + 1))), ("seqNumber", .nat (n + 1)),
    ("recordedAt", recordedAt), ("event", event), ("prevDigest", .str prev),
    ("digest", .str digest)] = record
  have hnumber : seqNumberOf record = some (n + 1) := by rw [← hfields]; rfl
  have hseq : record.get "seq" = .str (auditSeqKey (n + 1)) := by rw [← hfields]; rfl
  have hat : record.get "recordedAt" = recordedAt := by rw [← hfields]; rfl
  have hprevDigest : record.get "prevDigest" = .str prev := by rw [← hfields]; rfl
  have hevent : record.get "event" = event := by rw [← hfields]; rfl
  have hdigest : record.get "digest" = .str digest := by rw [← hfields]; rfl
  rw [verifyFrom, hnumber, hseq, hat, hprevDigest, hevent, hdigest]
  have hlink : strictEqual (.str prev) (.str prev) = true := decide_eq_true rfl
  cases hkept : strictEqual (.str (computeAuditDigest localeCompare sha256
    (.str (auditSeqKey (n + 1))) recordedAt (.str prev) event)) (.str digest) <;>
    simp [hlink, ChainReport.broken]

theorem verifyFrom_valid_iff (hsha : ∀ text, (sha256 text).length = 64)
    (hprev : isIsoDateString prev = false)
    (htells : ∀ v ∈ digestedFrom sanitizeUntrustedOutput localeCompare sha256 n prev as,
      TellsApart localeCompare sha256 store parseDate v) (count : ℕ) :
    (verifyFrom localeCompare sha256 count n (.str prev) (listed store parseDate
      (entriesFrom sanitizeUntrustedOutput localeCompare sha256 n prev as))).valid = true ↔
      ∀ a ∈ as, a.survives sanitizeUntrustedOutput = true := by
  induction as generalizing n prev with
  | nil => simp [entriesFrom, listed, verifyFrom]
  | cons a rest ih =>
    rw [digestedFrom, List.forall_mem_cons] at htells
    rw [listed_cons, verifyFrom_record hsha hprev htells.1, List.forall_mem_cons]
    exact and_congr_right fun _ => ih (notIso_digestAt hsha) htells.2

theorem verifyFrom_count {count i : ℕ} {expectedPrev : JsValue} {records : List JsValue} :
    (verifyFrom localeCompare sha256 count i expectedPrev records).count = count := by
  induction records generalizing i expectedPrev with
  | nil => rfl
  | cons record rest ih =>
    rw [verifyFrom]
    split_ifs
    all_goals first | rfl | exact ih

/-- The records that are verified are all that were appended. -/
theorem auditRecords_appendAll (hsha : ∀ text, (sha256 text).length = 64) :
    auditRecords (listed store parseDate
      (appendAll sanitizeUntrustedOutput localeCompare sha256 store parseDate as)) =
      listed store parseDate
        (entriesFrom sanitizeUntrustedOutput localeCompare sha256 0 "GENESIS" as) := by
  rw [auditRecords, appendAll_eq hsha, List.filter_eq_self.mpr]
  · exact listed_sorted hsha notIso_genesis
  · intro v hv
    obtain ⟨hevent, hnumber⟩ := listed_records hsha notIso_genesis v hv
    rw [hevent, hnumber]
    rfl

/-- Everything that was appended is counted, and the chain is valid exactly when each record
survives the store. -/
theorem audit_verifies_iff (hsha : ∀ text, (sha256 text).length = 64)
    (htells : ∀ v ∈ digestedFrom sanitizeUntrustedOutput localeCompare sha256 0 "GENESIS" as,
      TellsApart localeCompare sha256 store parseDate v) :
    ((verifyAuditChain localeCompare sha256 (listed store parseDate
        (appendAll sanitizeUntrustedOutput localeCompare sha256 store parseDate as))).valid = true ∧
      (verifyAuditChain localeCompare sha256 (listed store parseDate
        (appendAll sanitizeUntrustedOutput localeCompare sha256 store parseDate as))).count =
          as.length) ↔ ∀ a ∈ as, a.survives sanitizeUntrustedOutput = true := by
  have hlength : (listed store parseDate (entriesFrom sanitizeUntrustedOutput localeCompare sha256 0
      "GENESIS" as)).length = as.length := by
    rw [listed, List.length_map, entriesFrom_length]
  rw [verifyAuditChain, auditRecords_appendAll hsha, verifyFrom_count, hlength,
    verifyFrom_valid_iff hsha notIso_genesis htells, and_iff_left rfl]

theorem survives_recordAt (hsha : ∀ text, (sha256 text).length = 64)
    (hprev : isIsoDateString prev = false) :
    survives (recordAt sanitizeUntrustedOutput localeCompare sha256 n prev a) = true ↔
      a.survives sanitizeUntrustedOutput = true := by
  have hstr : ∀ s, (JsValue.str s).isUndefined = false := fun _ => rfl
  have hnat : ∀ k, survives (.nat k) = true := fun _ => rfl
  have hevent : (sanitizedEvent sanitizeUntrustedOutput a.event (n + 1) (isoText a.now)).isUndefined =
      false := rfl
  have hdigest : isIsoDateString (computeAuditDigest localeCompare sha256
      (.str (auditSeqKey (n + 1))) (.str (isoText a.now)) (.str prev)
      (sanitizedEvent sanitizeUntrustedOutput a.event (n + 1) (isoText a.now))) = false :=
    notIso_digestAt hsha
  rw [AuditAppend.survives, recordAt, auditRecord, survives_event 1 (n + 1)]
  simp [survives, survivesFields, hevent, hstr, hnat, notIso_seqKey, hprev, hdigest]

/-- A text that stays is told from itself. -/
theorem tellsApart_of_survives (hsha : ∀ text, (sha256 text).length = 64)
    (hprev : isIsoDateString prev = false)
    (h : ∀ a ∈ as, a.survives sanitizeUntrustedOutput = true) :
    ∀ v ∈ digestedFrom sanitizeUntrustedOutput localeCompare sha256 n prev as,
      TellsApart localeCompare sha256 store parseDate v := by
  induction as generalizing n prev with
  | nil => intro v hv; cases hv
  | cons a rest ih =>
    rw [List.forall_mem_cons] at h
    rw [digestedFrom, List.forall_mem_cons]
    refine ⟨fun _ => ?_, ih (notIso_digestAt hsha) h.2⟩
    exact (canonicalJson_reload_iff store parseDate safeKeys_digestedAt).mpr
      ((survives_digestedAt hprev).mpr h.1)

/-- A chain whose records all survive is valid. -/
theorem chain_valid (hsha : ∀ text, (sha256 text).length = 64)
    (h : ∀ a ∈ as, a.survives sanitizeUntrustedOutput = true) :
    (verifyAuditChain localeCompare sha256 (listed store parseDate
      (entriesFrom sanitizeUntrustedOutput localeCompare sha256 0 "GENESIS" as))).valid = true := by
  have hall : appendAll sanitizeUntrustedOutput localeCompare sha256 store parseDate as =
      entriesFrom sanitizeUntrustedOutput localeCompare sha256 0 "GENESIS" as := appendAll_eq hsha
  rw [verifyAuditChain, ← hall, auditRecords_appendAll hsha]
  exact (verifyFrom_valid_iff hsha notIso_genesis
    (tellsApart_of_survives hsha notIso_genesis h) _).mpr h

end Records

/-- No record made in a year of four digits survives. -/
theorem survives_four_digits {sanitizeUntrustedOutput : String → String} {a : AuditAppend}
    (h₀ : 0 ≤ (civil (a.now.1 / 86400000)).1) (h₁ : (civil (a.now.1 / 86400000)).1 ≤ 9999) :
    a.survives sanitizeUntrustedOutput = false := by
  rw [AuditAppend.survives, isIso_isoText h₀ h₁]
  rfl

/-! One event. -/

def runCreated (now : Timestamp) : AuditAppend :=
  ⟨now, ⟨some (.finite 0), "run.created", none, none, none, none, none, .obj []⟩⟩

def createdText : String :=
  "\x7b\"event\":\x7b\"data\":\x7b\x7d,\"seq\":0,\"timestamp\":\"2026-03-01T09:00:00.000Z\"," ++
  "\"type\":\"run.created\"\x7d,\"prevDigest\":\"GENESIS\"," ++
  "\"recordedAt\":\"2026-03-01T09:00:00.000Z\",\"seq\":\"0000000001\"\x7d"

/-- The digests of the two texts that are hashed: this one, and the one with `{}` for its dates. -/
def createdDigest (text : String) : String :=
  if text = createdText then
    "d985352bd63f0c1e86132ad633366ebe5826ad7658fb583ac7af0829fa103309"
  else "edb6f3dae2aec4dbf44266c108e2c22f8c3c90464552b61fc827a8758a060f53"

theorem created_valid : -maxTimeMs ≤ 1772355600000 ∧ 1772355600000 ≤ maxTimeMs := by decide

def createdAt : Timestamp := ⟨1772355600000, created_valid⟩

theorem createdDigest_length (text : String) : (createdDigest text).length = 64 := by
  unfold createdDigest
  split_ifs <;> exact String.length_ofList

/-- One record is enough: its `recordedAt` comes back as a `Date`, which has no text. -/
theorem created_broken : (verifyAuditChain compare createdDigest
    (listed .jsonFile (fun _ => some createdAt) (appendAll id compare createdDigest .jsonFile
      (fun _ => some createdAt) [runCreated createdAt]))).valid = false := by
  have hlost : (runCreated createdAt).survives id = false :=
    survives_four_digits (by decide) (by decide)
  have hwritten : String.ofList (canonicalJson compare
      (digestedAt id 0 "GENESIS" (runCreated createdAt))) = createdText := by decide +kernel
  have htells : ∀ v ∈ digestedFrom id compare createdDigest 0 "GENESIS" [runCreated createdAt],
      TellsApart compare createdDigest .jsonFile (fun _ => some createdAt) v := by
    refine List.forall_mem_singleton.mpr fun hdigest => ?_
    rw [createdDigest, if_pos hwritten, createdDigest] at hdigest
    split_ifs at hdigest with hread
    · exact String.ofList_inj.mp (hwritten.trans hread.symm)
    · exact absurd hdigest (by decide)
  rw [verifyAuditChain, auditRecords_appendAll createdDigest_length, ← Bool.not_eq_true,
    verifyFrom_valid_iff createdDigest_length notIso_genesis htells, List.forall_mem_singleton, hlost]
  nofun

/-- The first instant whose year has five digits. -/
def yearTenThousand : Timestamp := ⟨253402300800000, by decide⟩

def lateDigest (_ : String) : String :=
  "5e7964a377d2c882f73e874e9db2d00ec8bf259af2c9ad1392f46226b3b67f53"

theorem audit_verifies_late :
    (verifyAuditChain compare lateDigest (listed .jsonFile (fun _ => none) (appendAll id compare
      lateDigest .jsonFile (fun _ => none) [runCreated yearTenThousand]))).valid = true ∧
    (verifyAuditChain compare lateDigest (listed .jsonFile (fun _ => none) (appendAll id compare
      lateDigest .jsonFile (fun _ => none) [runCreated yearTenThousand]))).count = 1 := by
  have hsha : ∀ text, (lateDigest text).length = 64 := fun _ => by
    rw [lateDigest]
    decide
  have hsurvives : ∀ a ∈ [runCreated yearTenThousand], a.survives id = true := by decide
  exact (audit_verifies_iff hsha (tellsApart_of_survives hsha notIso_genesis hsurvives)).mpr hsurvives

end Wazir.Goals
