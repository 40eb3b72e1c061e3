import Wazir.Checkpoints.Workspace
import Wazir.Shared.Lookups
import Mathlib.Data.List.Infix

/-! When a rollback restores the workspace of its checkpoint: the contents and the names have to be
text, and no file may have become a directory. -/

namespace Wazir.Checkpoints

/-! Names and their text. -/

/-- A name that is text without a backslash. -/
def plainName (n : ByteArray) : Prop := n.IsValidUTF8 ∧ '\\' ∉ (utf8Text n).toList

def plainPath (p : Path) : Prop := ∀ n ∈ p, plainName n

theorem byte_of_char {c : Char} {s : String} (h : c ∈ s.toList) {b : UInt8}
    (hb : b ∈ String.utf8EncodeChar c) : b ∈ s.toByteArray.data.toList := by
  have hs : s.toByteArray = s.toList.utf8Encode := by
    rw [← String.toByteArray_ofList, String.ofList_toList]
  rw [hs]
  simp only [List.utf8Encode, List.data_toByteArray, List.toList_toArray, List.mem_flatMap]
  exact ⟨c, h, hb⟩

theorem mem_intercalate {α : Type} {sep : List α} {c : α} {ls : List (List α)}
    (h : c ∈ sep.intercalate ls) : c ∈ sep ∨ ∃ l ∈ ls, c ∈ l := by
  induction ls with
  | nil => cases h
  | cons l rest ih =>
    cases rest with
    | nil => exact .inr ⟨l, List.mem_cons_self, by simpa using h⟩
    | cons l' rest =>
      rw [List.intercalate_cons_cons, List.mem_append, List.mem_append] at h
      rcases h with (hl | hsep) | hrest
      · exact .inr ⟨l, List.mem_cons_self, hl⟩
      · exact .inl hsep
      · rcases ih hrest with hsep | ⟨x, hx, hcx⟩
        · exact .inl hsep
        · exact .inr ⟨x, List.mem_cons_of_mem _ hx, hcx⟩

section Names

variable {p q : Path}

theorem text_bytes (hp : plainPath p) : (p.map utf8Text).map String.toByteArray = p := by
  rw [List.map_map]
  refine (List.map_congr_left fun n hn => ?_).trans (List.map_id p)
  exact utf8Text_valid (hp n hn).1

theorem plainPath_found (hp : plainPath p) : foundAgain p = true :=
  List.all_eq_true.mpr fun n hn => decide_eq_true (utf8Text_valid (hp n hn).1)

/-- The text of a legal name is a part of a path. -/
theorem text_legal {n : ByteArray} (hplain : plainName n) (hlegal : legalName n) :
    utf8Text n ≠ "" ∧ utf8Text n ≠ "." ∧ utf8Text n ≠ ".." ∧ '/' ∉ (utf8Text n).toList := by
  have hbytes := utf8Text_valid hplain.1
  obtain ⟨hempty, hdot, hdots, hslash, -⟩ := hlegal
  refine ⟨fun h => hempty ?_, fun h => hdot ?_, fun h => hdots ?_, fun h => hslash ?_⟩
  · rw [← hbytes, h]
  · rw [← hbytes, h]
  · rw [← hbytes, h]
  · rw [← hbytes]
    exact byte_of_char h (by decide)

variable (hplain : plainPath p) (hlegal : ∀ n ∈ p, legalName n) (hne : p ≠ [])

include hplain hlegal hne

theorem parts_relPath : parts (relPath p) = p.map utf8Text := by
  have hslashes : (['/'].intercalate (p.map fun n => (utf8Text n).toList)).map (fun c =>
      if c = '\\' then '/' else c) = ['/'].intercalate (p.map fun n => (utf8Text n).toList) := by
    refine (List.map_congr_left fun c hc => ?_).trans (List.map_id _)
    rw [if_neg, id]
    rintro rfl
    rcases mem_intercalate hc with hsep | ⟨l, hl, hbackslash⟩
    · exact absurd hsep (by decide)
    · obtain ⟨n, hn, rfl⟩ := List.mem_map.mp hl
      exact (hplain n hn).2 hbackslash
  have hsplit : (['/'].intercalate (p.map fun n => (utf8Text n).toList)).splitOn '/' =
      p.map fun n => (utf8Text n).toList := by
    refine List.splitOn_intercalate '/' ?_ (by simpa using hne)
    intro l hl
    obtain ⟨n, hn, rfl⟩ := List.mem_map.mp hl
    exact (text_legal (hplain n hn) (hlegal n hn)).2.2.2
  rw [parts, relPath, String.toList_ofList, hslashes, hsplit, List.map_map]
  exact List.map_congr_left fun n _ => String.ofList_toList

theorem keyPath_relPath : keyPath (relPath p) = p := by
  rw [keyPath, parts_relPath hplain hlegal hne, text_bytes hplain]

theorem joinRoot_relPath (root : List String) : joinRoot root (relPath p) = some p := by
  have hjoin : ∀ ts : List String, (∀ t ∈ ts, t ≠ "" ∧ t ≠ "." ∧ t ≠ "..") →
      ∀ joined, ts.foldl joinPart joined = joined ++ ts := by
    intro ts
    induction ts with
    | nil => simp
    | cons t rest ih =>
      intro hts joined
      obtain ⟨hempty, hdot, hdots⟩ := hts t List.mem_cons_self
      rw [List.foldl_cons, ih fun t ht => hts t (List.mem_cons_of_mem _ ht)]
      simp [joinPart, hempty, hdot, hdots]
  have hparts : ∀ t ∈ p.map utf8Text, t ≠ "" ∧ t ≠ "." ∧ t ≠ ".." := by
    intro t ht
    obtain ⟨n, hn, rfl⟩ := List.mem_map.mp ht
    obtain ⟨hempty, hdot, hdots, -⟩ := text_legal (hplain n hn) (hlegal n hn)
    exact ⟨hempty, hdot, hdots⟩
  rw [joinRoot, parts_relPath hplain hlegal hne]
  simp only [hjoin _ hparts root, List.prefix_append, if_true, List.drop_left, text_bytes hplain]

end Names

/-! What is captured. -/

/-- The name that no object has as an entry of its own. -/
def protoName : ByteArray := "__proto__".toByteArray

/-- The files that a snapshot of plain names holds. -/
def captured (w : Workspace) : List (Path × ByteArray) :=
  w.files.filter fun kv => !excluded kv.1 && kv.1 ≠ [protoName]

/-- The files that are not excluded have plain names. -/
def PlainNames (w : Workspace) : Prop := ∀ kv ∈ w.files, excluded kv.1 = false → plainPath kv.1

theorem foldl_setKey (entries acc : Snapshot)
    (hnodup : (acc.map Prod.fst ++ entries.map Prod.fst).Nodup) :
    entries.foldl setKey acc = acc ++ entries.filter fun kv => kv.1 ≠ "__proto__" := by
  induction entries generalizing acc with
  | nil => simp
  | cons kv rest ih =>
    have hrest : (acc.map Prod.fst ++ rest.map Prod.fst).Nodup :=
      hnodup.sublist ((List.sublist_cons_self kv.1 (rest.map Prod.fst)).append_left _)
    rw [List.foldl_cons]
    by_cases hproto : kv.1 = "__proto__"
    · rw [setKey, if_pos hproto, ih acc hrest, List.filter_cons_of_neg (by simpa using hproto)]
    · have hnew : kv.1 ∉ acc.map Prod.fst := by
        intro hmem
        exact (List.nodup_append.mp hnodup).2.2 _ hmem _ List.mem_cons_self rfl
      rw [setKey, if_neg hproto, if_neg hnew, ih, List.filter_cons_of_pos (by simpa using hproto),
        List.append_assoc, List.singleton_append]
      simpa using hnodup

variable {kv : Path × ByteArray}

section Captured

variable {w : WorkspaceTree} (hplain : PlainNames w.toWorkspace)

include hplain

theorem captured_path (h : kv ∈ w.files) (hincluded : excluded kv.1 = false) :
    keyPath (relPath kv.1) = kv.1 :=
  keyPath_relPath (hplain kv h hincluded) (w.legal kv h).2 (w.legal kv h).1

theorem relPath_proto (h : kv ∈ w.files) (hincluded : excluded kv.1 = false) :
    relPath kv.1 = "__proto__" ↔ kv.1 = [protoName] := by
  constructor
  · intro heq
    rw [← captured_path hplain h hincluded, heq]
    decide
  · intro heq
    rw [heq]
    decide

theorem relPath_inj {kv kv' : Path × ByteArray} (h : kv ∈ w.files) (h' : kv' ∈ w.files)
    (hincluded : excluded kv.1 = false) (hincluded' : excluded kv'.1 = false)
    (heq : relPath kv.1 = relPath kv'.1) : kv.1 = kv'.1 := by
  rw [← captured_path hplain h hincluded, heq, captured_path hplain h' hincluded']

theorem snapshot_eq : snapshotWorkspaceFiles w.toWorkspace =
    (captured w.toWorkspace).map fun kv => (relPath kv.1, utf8Text kv.2) := by
  have hincluded : ∀ kv ∈ w.files.filter fun kv => !excluded kv.1,
      kv ∈ w.files ∧ excluded kv.1 = false := by
    intro kv hkv
    simpa using List.mem_filter.mp hkv
  have hpaths : ((w.files.filter fun kv => !excluded kv.1).map Prod.fst).Nodup :=
    w.distinct.sublist (List.filter_sublist.map _)
  have hnodup : (((w.files.filter fun kv => !excluded kv.1).map fun kv =>
      (relPath kv.1, utf8Text kv.2)).map Prod.fst).Nodup := by
    rw [List.map_map]
    rw [show (Prod.fst ∘ fun kv : Path × ByteArray => (relPath kv.1, utf8Text kv.2)) =
      relPath ∘ Prod.fst from rfl, ← List.map_map]
    refine List.Nodup.map_on ?_ hpaths
    intro p hp q hq heq
    obtain ⟨kv, hkv, rfl⟩ := List.mem_map.mp hp
    obtain ⟨kv', hkv', rfl⟩ := List.mem_map.mp hq
    exact relPath_inj hplain (hincluded kv hkv).1 (hincluded kv' hkv').1 (hincluded kv hkv).2
      (hincluded kv' hkv').2 heq
  have hfound : (w.files.filter fun kv => !excluded kv.1 && foundAgain kv.1) =
      w.files.filter fun kv => !excluded kv.1 := by
    refine List.filter_congr fun kv hkv => ?_
    cases hex : excluded kv.1 with
    | true => rfl
    | false => rw [plainPath_found (hplain kv hkv hex), Bool.and_true]
  rw [snapshotWorkspaceFiles, hfound, foldl_setKey _ [] (by simpa using hnodup), List.nil_append,
    List.filter_map, captured]
  congr 1
  rw [List.filter_filter]
  refine List.filter_congr fun kv hkv => ?_
  cases hex : excluded kv.1 with
  | true => simp
  | false =>
    have := relPath_proto hplain hkv hex
    simp [this]

end Captured

theorem filter_isNone_perm (index : String → Option ℕ) (snapshot : Snapshot) {first : Snapshot}
    (h : first.Perm (snapshot.filter fun kv => (index kv.1).isSome)) :
    (first ++ snapshot.filter fun kv => (index kv.1).isNone).Perm snapshot := by
  have hnone : (snapshot.filter fun kv => (index kv.1).isNone) =
      snapshot.filter fun kv => !(index kv.1).isSome := by
    simp
  rw [hnone]
  exact (h.append_right _).trans (List.filter_append_perm _ snapshot)

theorem objectEntries_perm (snapshot : Snapshot) : (objectEntries snapshot).Perm snapshot :=
  filter_isNone_perm arrayIndex snapshot (List.perm_insertionSort _ _)

/-! What is removed. -/

theorem file_rm (w : Workspace) (p q : Path) :
    (w.rm p).file q = if q = p then none else w.file q :=
  lookup_filter_ne

variable {w : Workspace} {p : Path}

theorem isFile_iff : w.isFile p = true ↔ (w.file p).isSome = true := by
  rw [Workspace.isFile, decide_eq_true_iff, Option.isSome_iff_ne_none, Workspace.file, ne_eq,
    lookup_eq_none_mem, not_not]

/-- Whether the removal takes a path away. -/
def removes (root : List String) (snapshot : Snapshot) (keys : List String) (p : Path) : Prop :=
  ∃ key ∈ keys, inSnapshot key snapshot = false ∧ joinRoot root key = some p

theorem removeKey_eq (root : List String) (snapshot : Snapshot) (w : Workspace) (key : String) :
    (removeKey root snapshot w key).dirs = w.dirs ∧ ∀ p,
      (removeKey root snapshot w key).file p =
        if inSnapshot key snapshot = false ∧ joinRoot root key = some p then none else w.file p := by
  unfold removeKey
  cases hin : inSnapshot key snapshot with
  | true => simp
  | false =>
    cases hjoin : joinRoot root key with
    | none => simp
    | some q =>
      refine ⟨rfl, fun p => ?_⟩
      simp only [Bool.false_eq_true, if_false, file_rm, true_and, Option.some.injEq, eq_comm]

theorem foldl_removeKey (root : List String) (snapshot : Snapshot) (keys : List String)
    (w : Workspace) : (keys.foldl (removeKey root snapshot) w).dirs = w.dirs ∧
      (∀ p, removes root snapshot keys p →
        (keys.foldl (removeKey root snapshot) w).file p = none) ∧
      ∀ p, ¬ removes root snapshot keys p →
        (keys.foldl (removeKey root snapshot) w).file p = w.file p := by
  induction keys generalizing w with
  | nil =>
    refine ⟨rfl, ?_, fun p _ => rfl⟩
    rintro p ⟨_, h, _⟩
    cases h
  | cons key rest ih =>
    obtain ⟨hdirs, hgone, hkept⟩ := ih (removeKey root snapshot w key)
    obtain ⟨hdirs', hfile⟩ := removeKey_eq root snapshot w key
    refine ⟨hdirs.trans hdirs', fun p hp => ?_, fun p hp => ?_⟩
    · by_cases hrest : removes root snapshot rest p
      · exact hgone p hrest
      · obtain ⟨key', hmem, hkey'⟩ := hp
        rcases List.mem_cons.mp hmem with rfl | hmem
        · rw [List.foldl_cons, hkept p hrest, hfile, if_pos hkey']
        · exact absurd ⟨key', hmem, hkey'⟩ hrest
    · have hrest : ¬ removes root snapshot rest p := fun ⟨key', hmem, hkey'⟩ =>
        hp ⟨key', List.mem_cons_of_mem _ hmem, hkey'⟩
      have hkey : ¬ (inSnapshot key snapshot = false ∧ joinRoot root key = some p) := fun hkey =>
        hp ⟨key, List.mem_cons_self, hkey⟩
      rw [List.foldl_cons, hkept p hrest, hfile, if_neg hkey]

/-! What is written. -/

/-- The files that the entries of a snapshot stand for. -/
def written (entries : Snapshot) : List (Path × ByteArray) :=
  entries.map fun kv => (keyPath kv.1, kv.2.toByteArray)

theorem mkdir_some (h : ∀ q, q <+: p → q ≠ [] → w.isFile q = false) :
    ∃ made, w.mkdir p = some made ∧ made.files = w.files ∧
      ∀ q ∈ made.dirs, q ∈ w.dirs ∨ q <+: p := by
  have hclear : ¬ (p.inits.filter (· ≠ [])).any w.isFile = true := by
    rw [List.any_eq_true]
    rintro ⟨q, hq, hfile⟩
    obtain ⟨hinit, hne⟩ := List.mem_filter.mp hq
    rw [h q ((List.mem_inits _ _).mp hinit) (by simpa using hne)] at hfile
    cases hfile
  refine ⟨{ w with dirs := w.dirs ++ (p.inits.filter (· ≠ [])).filter (· ∉ w.dirs) },
    if_neg hclear, rfl, fun q hq => ?_⟩
  rcases List.mem_append.mp hq with hold | hnew
  · exact .inl hold
  · exact .inr ((List.mem_inits _ _).mp (List.mem_filter.mp (List.mem_filter.mp hnew).1).1)

theorem lookup_append {α β : Type} [BEq α] {l l' : List (α × β)} {a : α} :
    (l ++ l').lookup a = (l.lookup a).or (l'.lookup a) := by
  induction l with
  | nil => rfl
  | cons kv rest ih =>
    obtain ⟨k, v⟩ := kv
    rw [List.cons_append, List.lookup_cons, List.lookup_cons, ih]
    cases a == k <;> rfl

theorem writeFile_some (content : ByteArray) (hne : p ≠ []) (h : p ∉ w.dirs) :
    ∃ w', w.writeFile p content = some w' ∧ w'.dirs = w.dirs ∧
      ∀ q, w'.file q = if q = p then some content else w.file q := by
  refine ⟨{ w with files := w.files.filter (fun kv => kv.1 ≠ p) ++ [(p, content)] },
    if_neg (by simp [hne, h]), rfl, fun q => ?_⟩
  rw [Workspace.file, lookup_append, lookup_filter_ne, List.lookup_cons]
  by_cases hq : q = p
  · simp [hq]
  · rw [show (q == p) = false by simpa using hq]
    simp [hq, Workspace.file]

/-- Nothing is in the way of the entries, and none in the way of another. -/
structure Writable (entries : Snapshot) (w : Workspace) : Prop where
  nonempty : ∀ kv ∈ written entries, kv.1 ≠ []
  distinct : ((written entries).map Prod.fst).Nodup
  clear : ∀ kv ∈ written entries, ∀ q, q <+: kv.1 → q ≠ [] → q ≠ kv.1 → w.isFile q = false
  notDir : ∀ kv ∈ written entries, kv.1 ∉ w.dirs
  apart : ∀ kv ∈ written entries, ∀ kv' ∈ written entries, kv.1 <+: kv'.1 → kv.1 = kv'.1

theorem not_prefix_dropLast (hne : p ≠ []) : ¬ p <+: p.dropLast := by
  intro h
  have hlen := h.length_le
  have hpos := List.length_pos_iff.mpr hne
  rw [List.length_dropLast] at hlen
  omega

theorem writeEntries_ok {entries : Snapshot} (h : Writable entries w) :
    ∃ w', writeEntries entries w = (none, w') ∧
      ∀ p, w'.file p = ((written entries).lookup p).or (w.file p) := by
  induction entries generalizing w with
  | nil => exact ⟨w, rfl, fun p => rfl⟩
  | cons kv rest ih =>
    obtain ⟨relative, content⟩ := kv
    have hcons : written ((relative, content) :: rest) =
      (keyPath relative, content.toByteArray) :: written rest := rfl
    obtain ⟨hnonempty, hdistinct, hclear, hnotDir, hapart⟩ := h
    rw [hcons] at hnonempty hdistinct hclear hnotDir hapart
    generalize hp : keyPath relative = p at *
    have hfirst : (p, content.toByteArray) ∈ (p, content.toByteArray) :: written rest :=
      List.mem_cons_self
    have hrest : ∀ kv ∈ written rest, kv ∈ (p, content.toByteArray) :: written rest := fun kv hkv =>
      List.mem_cons_of_mem _ hkv
    have hne : p ≠ [] := hnonempty _ hfirst
    have hparent : ∀ q, q <+: p.dropLast → q ≠ [] → w.isFile q = false := by
      intro q hq hqne
      refine hclear _ hfirst q (hq.trans (List.dropLast_prefix _)) hqne ?_
      rintro rfl
      exact not_prefix_dropLast hne hq
    obtain ⟨made, hmade, hfiles, hdirs⟩ := mkdir_some hparent
    have hopen : p ∉ made.dirs := fun hmem =>
      (hdirs _ hmem).elim (hnotDir _ hfirst) (not_prefix_dropLast hne)
    obtain ⟨next, hnext, hnextDirs, hnextFile⟩ := writeFile_some content.toByteArray hne hopen
    have hmadeFile : ∀ q, made.file q = w.file q := fun q => by
      rw [Workspace.file, hfiles, Workspace.file]
    obtain ⟨hnew, hdistinctRest⟩ := List.nodup_cons.mp hdistinct
    have hwritable : Writable rest next := by
      refine ⟨fun kv hkv => hnonempty _ (hrest kv hkv), hdistinctRest, ?_, ?_,
        fun kv hkv kv' hkv' => hapart _ (hrest kv hkv) _ (hrest kv' hkv')⟩
      · intro kv hkv q hq hqne hproper
        have hother : q ≠ p := by
          rintro rfl
          exact hproper (hapart _ hfirst _ (hrest kv hkv) hq)
        have hold := hclear _ (hrest kv hkv) q hq hqne hproper
        rw [← Bool.not_eq_true, isFile_iff] at hold ⊢
        rwa [hnextFile, if_neg hother, hmadeFile]
      · intro kv hkv hmem
        rw [hnextDirs] at hmem
        rcases hdirs _ hmem with hold | hbelow
        · exact hnotDir _ (hrest kv hkv) hold
        · have heq : kv.1 = p := hapart _ (hrest kv hkv) _ hfirst
            (hbelow.trans (List.dropLast_prefix _))
          rw [heq] at hbelow
          exact not_prefix_dropLast hne hbelow
    obtain ⟨w', hw', hfile⟩ := ih hwritable
    refine ⟨w', ?_, fun q => ?_⟩
    · simp only [writeEntries, hp, hmade, hnext, hw']
    · rw [hfile, hnextFile, hmadeFile, hcons, List.lookup_cons]
      by_cases hq : q = p
      · subst hq
        rw [lookup_eq_none_mem.mpr hnew]
        simp
      · rw [if_neg hq, show (q == p) = false by simpa using hq]

/-! The rollback. -/

section Rollback

variable {w₀ w₁ : WorkspaceTree}

/-- The rollback restores what was captured, or fails and leaves the workspace as it was. -/
def ExactRestoration (w₀ w₁ : Workspace) (r : Restoration) : Prop :=
  match r.1 with
  | none => ∀ p, excluded p = false → r.2.file p = w₀.file p
  | some _ => r.2 = w₁

/-- The files have plain names, and none that was captured has become a directory. -/
structure Namable (w₀ w₁ : Workspace) : Prop where
  plain₀ : PlainNames w₀
  plain₁ : PlainNames w₁
  notDir : ∀ kv ∈ captured w₀, kv.1 ∉ w₁.dirs

/-- The contents are text, and no name that every object has stands for a file that is only there
now. -/
structure Restorable (w₀ w₁ : Workspace) : Prop extends Namable w₀ w₁ where
  text : ∀ kv ∈ captured w₀, kv.2.IsValidUTF8
  proto : w₁.file [protoName] = w₀.file [protoName]
  inherited : ∀ name ∈ objectMembers, w₁.isFile [name.toByteArray] = true →
    w₀.isFile [name.toByteArray] = true

/-- The validation refuses an entry of the snapshot. -/
def Refused (w₀ w₁ : Workspace) : Prop :=
  ∃ kv ∈ objectEntries (snapshotWorkspaceFiles w₀), pathError w₁ kv.1 ≠ none

theorem mem_captured : kv ∈ captured w ↔
    kv ∈ w.files ∧ excluded kv.1 = false ∧ kv.1 ≠ [protoName] := by
  simp [captured]

/-- The bytes of the text of bytes. -/
def recode (bytes : ByteArray) : ByteArray := (utf8Text bytes).toByteArray

theorem recode_eq_self {bytes : ByteArray} : recode bytes = bytes ↔ bytes.IsValidUTF8 := by
  constructor
  · intro h
    rw [← h]
    exact (utf8Text bytes).isValidUTF8
  · exact utf8Text_valid

theorem written_snapshot (hplain : PlainNames w₀.toWorkspace) :
    (written (objectEntries (snapshotWorkspaceFiles w₀.toWorkspace))).Perm
      ((captured w₀.toWorkspace).map fun kv => (kv.1, recode kv.2)) := by
  refine ((objectEntries_perm _).map _).trans ?_
  rw [snapshot_eq hplain, List.map_map]
  refine List.Perm.of_eq (List.map_congr_left fun kv hkv => ?_)
  obtain ⟨hmem, hincluded, -⟩ := mem_captured.mp hkv
  exact Prod.ext (captured_path hplain hmem hincluded) rfl

theorem captured_distinct (w : WorkspaceTree) : ((captured w.toWorkspace).map Prod.fst).Nodup :=
  w.distinct.sublist (List.filter_sublist.map _)

theorem file_eq_some (w : WorkspaceTree) {b : ByteArray} :
    w.file p = some b ↔ (p, b) ∈ w.files :=
  lookup_eq_some_mem w.distinct

theorem files_apart (w : WorkspaceTree) {kv kv' : Path × ByteArray} (h : kv ∈ w.files)
    (h' : kv' ∈ w.files) (hbelow : kv.1 <+: kv'.1) : kv.1 = kv'.1 := by
  by_contra hne
  exact w.apart kv h (w.below kv' h' _ hbelow (w.legal kv h).1 hne)

/-- What the removal takes away: the files whose names the snapshot does not seem to have. -/
theorem removes_iff (root : List String) (hplain : PlainNames w₁.toWorkspace) (snapshot : Snapshot)
    (p : Path) : removes root snapshot
      ((objectEntries (snapshotWorkspaceFiles w₁.toWorkspace)).map Prod.fst) p ↔
    p ∈ (captured w₁.toWorkspace).map Prod.fst ∧ inSnapshot (relPath p) snapshot = false := by
  have hkeys : ∀ key, key ∈ (objectEntries (snapshotWorkspaceFiles w₁.toWorkspace)).map Prod.fst ↔
      ∃ kv ∈ captured w₁.toWorkspace, relPath kv.1 = key := by
    intro key
    rw [((objectEntries_perm _).map Prod.fst).mem_iff, snapshot_eq hplain]
    simp
  have hjoin : ∀ kv ∈ captured w₁.toWorkspace, joinRoot root (relPath kv.1) = some kv.1 := by
    intro kv hkv
    obtain ⟨hmem, hincluded, -⟩ := mem_captured.mp hkv
    exact joinRoot_relPath (hplain kv hmem hincluded) (w₁.legal kv hmem).2 (w₁.legal kv hmem).1 root
  constructor
  · rintro ⟨key, hkey, hnot, hpath⟩
    obtain ⟨kv, hkv, rfl⟩ := (hkeys key).mp hkey
    rw [hjoin kv hkv] at hpath
    obtain rfl := Option.some.inj hpath
    exact ⟨List.mem_map_of_mem hkv, hnot⟩
  · rintro ⟨hmem, hnot⟩
    obtain ⟨kv, hkv, rfl⟩ := List.mem_map.mp hmem
    exact ⟨relPath kv.1, (hkeys _).mpr ⟨kv, hkv, rfl⟩, hnot, hjoin kv hkv⟩

theorem notFile_of_checked {relative : String} (h : pathError w relative = none) {q : Path}
    (hq : q <+: keyPath relative) (hne : q ≠ keyPath relative) : w.isFile q = false := by
  unfold pathError at h
  split_ifs at h with hunsafe hfile
  rw [List.any_eq_true] at hfile
  by_contra hisFile
  refine hfile ⟨q, (List.mem_inits _ _).mpr hq, ?_⟩
  simpa [hne] using hisFile

/-- A restoration that nothing stands in the way of. -/
theorem restored_file (root : List String) (h : Namable w₀.toWorkspace w₁.toWorkspace)
    (haccepted : ¬ Refused w₀.toWorkspace w₁.toWorkspace) :
    ∃ w', restoreSnapshotToDirectory root (snapshotWorkspaceFiles w₀.toWorkspace) w₁.toWorkspace =
        (none, w') ∧
      ∀ p, w'.file p = (((captured w₀.toWorkspace).lookup p).map recode).or
        (if p ∈ (captured w₁.toWorkspace).map Prod.fst ∧
            inSnapshot (relPath p) (snapshotWorkspaceFiles w₀.toWorkspace) = false then none
          else w₁.file p) := by
  set snapshot := snapshotWorkspaceFiles w₀.toWorkspace with hsnapshot
  have hchecked : ∀ kv ∈ objectEntries snapshot, pathError w₁.toWorkspace kv.1 = none := by
    intro kv hkv
    by_contra herror
    exact haccepted ⟨kv, hkv, herror⟩
  have hvalid : ((objectEntries snapshot).findSome? fun kv => pathError w₁.toWorkspace kv.1) =
      none := List.findSome?_eq_none_iff.mpr hchecked
  have hperm := written_snapshot h.plain₀
  rw [← hsnapshot] at hperm
  obtain ⟨hdirs, hgone, hkept⟩ := foldl_removeKey root snapshot
    ((objectEntries (snapshotWorkspaceFiles w₁.toWorkspace)).map Prod.fst) w₁.toWorkspace
  have hremoved : ∀ p, (removeExtra root snapshot w₁.toWorkspace).file p =
      if p ∈ (captured w₁.toWorkspace).map Prod.fst ∧ inSnapshot (relPath p) snapshot = false then none
      else w₁.file p := by
    intro p
    split_ifs with hp
    · exact hgone p ((removes_iff root h.plain₁ snapshot p).mpr hp)
    · exact hkept p fun hr => hp ((removes_iff root h.plain₁ snapshot p).mp hr)
  have hmem : ∀ kv ∈ written (objectEntries snapshot), ∃ kv₀ ∈ captured w₀.toWorkspace,
      kv₀.1 = kv.1 := by
    intro kv hkv
    obtain ⟨kv₀, hkv₀, rfl⟩ := List.mem_map.mp (hperm.mem_iff.mp hkv)
    exact ⟨kv₀, hkv₀, rfl⟩
  have hdistinct : ((written (objectEntries snapshot)).map Prod.fst).Nodup := by
    rw [(hperm.map Prod.fst).nodup_iff, List.map_map]
    exact captured_distinct w₀
  have hwritable : Writable (objectEntries snapshot) (removeExtra root snapshot w₁.toWorkspace) := by
    refine ⟨fun kv hkv => ?_, hdistinct, fun kv hkv q hq hqne hproper => ?_, fun kv hkv => ?_,
      fun kv hkv kv' hkv' hbelow => ?_⟩
    · obtain ⟨kv₀, hkv₀, hpath⟩ := hmem kv hkv
      rw [← hpath]
      exact (w₀.legal kv₀ (mem_captured.mp hkv₀).1).1
    · obtain ⟨e, he, rfl⟩ := List.mem_map.mp hkv
      have hold := notFile_of_checked (hchecked e he) hq hproper
      rw [← Bool.not_eq_true, isFile_iff, hremoved]
      rw [← Bool.not_eq_true, isFile_iff] at hold
      split_ifs
      · simp
      · exact hold
    · obtain ⟨kv₀, hkv₀, hpath⟩ := hmem kv hkv
      rw [removeExtra, hdirs, ← hpath]
      exact h.notDir kv₀ hkv₀
    · obtain ⟨kv₀, hkv₀, hpath⟩ := hmem kv hkv
      obtain ⟨kv₀', hkv₀', hpath'⟩ := hmem kv' hkv'
      rw [← hpath, ← hpath'] at hbelow ⊢
      exact files_apart w₀ (mem_captured.mp hkv₀).1 (mem_captured.mp hkv₀').1 hbelow
  obtain ⟨w', hw', hfile⟩ := writeEntries_ok hwritable
  refine ⟨w', ?_, fun p => ?_⟩
  · rw [restoreSnapshotToDirectory, hvalid]
    exact hw'
  · rw [hfile, hremoved]
    congr 1
    ext b
    rw [lookup_eq_some_mem hdistinct, hperm.mem_iff, Option.map_eq_some_iff]
    simp only [List.mem_map, Prod.mk.injEq, lookup_eq_some_mem (captured_distinct w₀)]
    constructor
    · rintro ⟨⟨q, b₀⟩, hmem₀, rfl, rfl⟩
      exact ⟨b₀, hmem₀, rfl⟩
    · rintro ⟨b₀, hmem₀, rfl⟩
      exact ⟨(p, b₀), hmem₀, rfl, rfl⟩

theorem members_paths : ∀ name ∈ objectMembers, excluded [name.toByteArray] = false ∧
    relPath [name.toByteArray] = name ∧ keyPath name = [name.toByteArray] := by
  have hnames : ∀ name ∈ objectMembers, excludedName name = false ∧ '\\' ∉ name.toList ∧
      '/' ∉ name.toList := by decide
  intro name hmem
  obtain ⟨hincluded, hplain, hpart⟩ := hnames name hmem
  have htext : utf8Text name.toByteArray = name := by
    simp [utf8Text, String.fromUTF8?, String.fromUTF8, name.isValidUTF8]
  have hchars : (name.toList.map fun c => if c = '\\' then '/' else c) = name.toList := by
    refine (List.map_congr_left fun c hc => if_neg ?_).trans (List.map_id _)
    rintro rfl
    exact hplain hc
  refine ⟨by simp [excluded, htext, hincluded], ?_, ?_⟩
  · simp only [relPath, List.map_cons, List.map_nil, htext, List.intercalate_singleton, hchars,
      String.ofList_toList]
  · have hsplit : (['/'].intercalate [name.toList]).splitOn '/' = [name.toList] :=
      List.splitOn_intercalate '/' (List.forall_mem_singleton.mpr hpart) (List.cons_ne_nil _ _)
    rw [List.intercalate_singleton] at hsplit
    rw [keyPath, parts, hsplit]
    simp

/-- What the snapshot seems to have: what it captured, and what every object has. -/
theorem inSnapshot_iff (hplain : PlainNames w₀.toWorkspace) (hkey : keyPath (relPath p) = p) :
    inSnapshot (relPath p) (snapshotWorkspaceFiles w₀.toWorkspace) = true ↔
      p ∈ (captured w₀.toWorkspace).map Prod.fst ∨ relPath p ∈ objectMembers := by
  have hkeys : relPath p ∈ (snapshotWorkspaceFiles w₀.toWorkspace).map Prod.fst ↔
      p ∈ (captured w₀.toWorkspace).map Prod.fst := by
    rw [snapshot_eq hplain, List.map_map]
    constructor
    · intro h
      obtain ⟨kv, hkv, heq⟩ := List.mem_map.mp h
      obtain ⟨hmem, hincluded, -⟩ := mem_captured.mp hkv
      have hpath : kv.1 = p := by
        rw [← captured_path hplain hmem hincluded, ← hkey]
        exact congrArg keyPath heq
      exact List.mem_map.mpr ⟨kv, hkv, hpath⟩
    · intro h
      obtain ⟨kv, hkv, rfl⟩ := List.mem_map.mp h
      exact List.mem_map.mpr ⟨kv, hkv, rfl⟩
  unfold inSnapshot
  rw [Bool.or_eq_true, decide_eq_true_iff, decide_eq_true_iff, hkeys]

theorem file_of_captured (w : WorkspaceTree) {b : ByteArray}
    (h : (captured w.toWorkspace).lookup p = some b) : w.file p = some b :=
  (file_eq_some w).mpr (mem_captured.mp ((lookup_eq_some_mem (captured_distinct w)).mp h)).1

/-- Where no captured file has become a directory and all names are plain, a restoration that is not
refused is exact if and only if the snapshot holds what was there. -/
theorem restore_exact_iff (root : List String) (h : Namable w₀.toWorkspace w₁.toWorkspace)
    (haccepted : ¬ Refused w₀.toWorkspace w₁.toWorkspace) :
    ExactRestoration w₀.toWorkspace w₁.toWorkspace (restoreSnapshotToDirectory root
      (snapshotWorkspaceFiles w₀.toWorkspace) w₁.toWorkspace) ↔
    Restorable w₀.toWorkspace w₁.toWorkspace := by
  obtain ⟨w', hrestored, hfile⟩ := restored_file root h haccepted
  rw [hrestored]
  have hproto : w'.file [protoName] = w₁.file [protoName] := by
    rw [hfile, if_neg, lookup_eq_none_mem.mpr]
    · rfl
    · simp [mem_captured]
    · simp [mem_captured]
  constructor
  · intro hexact
    refine ⟨h, fun kv hkv => ?_, ?_, fun name hname hisFile => ?_⟩
    · obtain ⟨hmem, hincluded, -⟩ := mem_captured.mp hkv
      have hcontent := hexact kv.1 hincluded
      rw [hfile, (lookup_eq_some_mem (captured_distinct w₀)).mpr hkv,
        (file_eq_some w₀).mpr hmem] at hcontent
      exact recode_eq_self.mp (Option.some.inj hcontent)
    · rw [← hproto]
      exact hexact _ (members_paths "__proto__" (by decide)).1
    · obtain ⟨hincluded, hrel, -⟩ := members_paths name hname
      have hcontent := hexact _ hincluded
      cases hcaptured : (captured w₀.toWorkspace).lookup [name.toByteArray] with
      | some b =>
        rw [isFile_iff, file_of_captured w₀ hcaptured]
        rfl
      | none =>
        have hin : inSnapshot name (snapshotWorkspaceFiles w₀.toWorkspace) = true := by
          simp [inSnapshot, hname]
        rw [hfile, hcaptured, if_neg (by simp [hrel, hin])] at hcontent
        rw [isFile_iff] at hisFile ⊢
        rw [← hcontent]
        simpa using hisFile
  · intro hrestorable p hp
    rw [hfile]
    cases hcaptured : (captured w₀.toWorkspace).lookup p with
    | some b =>
      have hmem := (lookup_eq_some_mem (captured_distinct w₀)).mp hcaptured
      rw [file_of_captured w₀ hcaptured, Option.map_some, Option.some_or,
        recode_eq_self.mpr (hrestorable.text _ hmem)]
    | none =>
      rw [Option.map_none, Option.none_or]
      by_cases hname : p = [protoName]
      · rw [if_neg (by simp [hname, mem_captured]), hname]
        exact hrestorable.proto
      · have hnot : p ∉ (captured w₀.toWorkspace).map Prod.fst := lookup_eq_none_mem.mp hcaptured
        have hnone : w₀.file p = none := by
          rw [Option.eq_none_iff_forall_ne_some]
          intro b hb
          exact hnot (List.mem_map.mpr ⟨(p, b), mem_captured.mpr ⟨(file_eq_some w₀).mp hb, hp, hname⟩,
            rfl⟩)
        rw [hnone]
        split_ifs with hremoved
        · rfl
        · rw [Option.eq_none_iff_forall_ne_some]
          intro b hb
          have hmem := (file_eq_some w₁).mp hb
          have hkey := captured_path h.plain₁ hmem hp
          refine hremoved ⟨List.mem_map.mpr ⟨(p, b), mem_captured.mpr ⟨hmem, hp, hname⟩, rfl⟩, ?_⟩
          rw [← Bool.not_eq_true, inSnapshot_iff h.plain₀ hkey]
          rintro (hold | hmember)
          · exact hnot hold
          · have hpath : p = [(relPath p).toByteArray] := by
              rw [← (members_paths _ hmember).2.2]
              exact hkey.symm
            have hisFile := hrestorable.inherited _ hmember (by
              rw [← hpath, isFile_iff, hb]
              rfl)
            rw [← hpath, isFile_iff, hnone] at hisFile
            cases hisFile

/-- The rollback is rejected: the execution is not known, or the checkpoint is neither its own nor its
parent's. -/
def Rejected (executionId owner : String) (parentExecutionId : Option (Option String)) : Prop :=
  parentExecutionId = none ∨ owner ≠ executionId ∧ parentExecutionId ≠ some (some owner)

/-- A rollback to the checkpoint of `w₀` from `w₁` restores it or leaves all as it was, if it is
rejected, refused or the snapshot holds what was there; and only then, as long as all names are plain
and no captured file has become a directory. -/
theorem rollback_exact (root : List String) (executionId checkpointId owner : String)
    (parentExecutionId : Option (Option String)) (w₀ w₁ : WorkspaceTree) :
    (Rejected executionId owner parentExecutionId ∨ Refused w₀.toWorkspace w₁.toWorkspace ∨
        Restorable w₀.toWorkspace w₁.toWorkspace →
      ExactRestoration w₀.toWorkspace w₁.toWorkspace (rollback root executionId checkpointId
        ⟨parentExecutionId, some (owner, snapshotWorkspaceFiles w₀.toWorkspace)⟩ w₁.toWorkspace)) ∧
    (Namable w₀.toWorkspace w₁.toWorkspace →
      ExactRestoration w₀.toWorkspace w₁.toWorkspace (rollback root executionId checkpointId
        ⟨parentExecutionId, some (owner, snapshotWorkspaceFiles w₀.toWorkspace)⟩ w₁.toWorkspace) →
      Rejected executionId owner parentExecutionId ∨ Refused w₀.toWorkspace w₁.toWorkspace ∨
        Restorable w₀.toWorkspace w₁.toWorkspace) := by
  by_cases hrejected : Rejected executionId owner parentExecutionId
  · refine ⟨fun _ => ?_, fun _ _ => .inl hrejected⟩
    rcases hrejected with rfl | ⟨howner, hparent⟩
    · exact rfl
    · cases parentExecutionId with
      | none => exact rfl
      | some parent =>
        have hforeign : owner ≠ executionId ∧ parent ≠ some owner :=
          ⟨howner, fun h => hparent (congrArg some h)⟩
        simp only [rollback, if_pos hforeign]
        exact rfl
  have hrestore : rollback root executionId checkpointId
      ⟨parentExecutionId, some (owner, snapshotWorkspaceFiles w₀.toWorkspace)⟩ w₁.toWorkspace =
        restoreSnapshotToDirectory root (snapshotWorkspaceFiles w₀.toWorkspace) w₁.toWorkspace := by
    cases parentExecutionId with
    | none => exact absurd (.inl rfl) hrejected
    | some parent =>
      simp only [rollback]
      exact if_neg fun h => hrejected (.inr ⟨h.1, fun heq => h.2 (Option.some.inj heq)⟩)
  rw [hrestore]
  by_cases hrefused : Refused w₀.toWorkspace w₁.toWorkspace
  · refine ⟨fun _ => ?_, fun _ _ => .inr (.inl hrefused)⟩
    unfold restoreSnapshotToDirectory
    cases herror : (objectEntries (snapshotWorkspaceFiles w₀.toWorkspace)).findSome? fun kv =>
        pathError w₁.toWorkspace kv.1 with
    | some error => exact rfl
    | none =>
      obtain ⟨kv, hkv, hne⟩ := hrefused
      exact absurd (List.findSome?_eq_none_iff.mp herror kv hkv) hne
  · constructor
    · rintro (h | h | h)
      · exact absurd h hrejected
      · exact absurd h hrefused
      · exact (restore_exact_iff root h.toNamable hrefused).mpr h
    · intro hnamable hexact
      exact .inr (.inr ((restore_exact_iff root hnamable hrefused).mp hexact))

end Rollback

/-! Workspaces without directories. -/

instance (p : Path) : Decidable (plainPath p) :=
  inferInstanceAs (Decidable (∀ n ∈ p, n.IsValidUTF8 ∧ '\\' ∉ (utf8Text n).toList))

instance (w : Workspace) : Decidable (PlainNames w) :=
  inferInstanceAs (Decidable (∀ kv ∈ w.files, _ → _))

instance (n : ByteArray) : Decidable (legalName n) := inferInstanceAs (Decidable (_ ∧ _ ∧ _ ∧ _ ∧ _))

def flatTree (files : List (ByteArray × ByteArray)) (distinct : (files.map Prod.fst).Nodup)
    (legal : ∀ kv ∈ files, legalName kv.1) : WorkspaceTree where
  files := files.map fun kv => ([kv.1], kv.2)
  dirs := []
  distinct := by
    rw [List.map_map]
    exact (List.map_map (f := Prod.fst) (g := fun n => [n]) (l := files)) ▸
      distinct.map (List.singleton_injective)
  legal := by
    intro kv hkv
    obtain ⟨kv', hkv', rfl⟩ := List.mem_map.mp hkv
    exact ⟨List.cons_ne_nil _ _, fun n hn => List.mem_singleton.mp hn ▸ legal kv' hkv'⟩
  below := by
    intro kv hkv q hq hne hproper
    obtain ⟨kv', -, rfl⟩ := List.mem_map.mp hkv
    rcases List.prefix_cons_iff.mp hq with rfl | ⟨t, rfl, ht⟩
    · exact absurd rfl hne
    · rw [List.prefix_nil.mp ht] at hproper
      exact absurd rfl hproper
  apart := fun _ _ => List.not_mem_nil

def savedTree : WorkspaceTree :=
  flatTree [("a.txt".toByteArray, "old".toByteArray)] (by decide) (by decide)

def editedTree : WorkspaceTree :=
  flatTree [("a.txt".toByteArray, "new".toByteArray), ("b.txt".toByteArray, "extra".toByteArray)]
    (by decide) (by decide)

theorem rollback_exact_edited : ExactRestoration savedTree.toWorkspace editedTree.toWorkspace
    (rollback ["work"] "exec-1" "chk-1"
      ⟨some none, some ("exec-1", snapshotWorkspaceFiles savedTree.toWorkspace)⟩
      editedTree.toWorkspace) := by
  have hrestorable : Restorable savedTree.toWorkspace editedTree.toWorkspace :=
    { plain₀ := by decide
      plain₁ := by decide
      notDir := by decide
      text := by decide
      proto := by decide
      inherited := by decide }
  exact (rollback_exact ["work"] "exec-1" "chk-1" "exec-1" (some none) savedTree editedTree).1
    (.inr (.inr hrestorable))

/-- An image; its first byte is no UTF-8. -/
def binaryTree : WorkspaceTree :=
  flatTree [("logo.png".toByteArray, ⟨#[0x89, 0x50, 0x4E, 0x47]⟩)] (by decide) (by decide)

theorem rollback_binary : ¬ ExactRestoration binaryTree.toWorkspace binaryTree.toWorkspace
    (rollback ["work"] "exec-1" "chk-1"
      ⟨some none, some ("exec-1", snapshotWorkspaceFiles binaryTree.toWorkspace)⟩
      binaryTree.toWorkspace) := by
  intro h
  have hdone : (rollback ["work"] "exec-1" "chk-1"
      ⟨some none, some ("exec-1", snapshotWorkspaceFiles binaryTree.toWorkspace)⟩
      binaryTree.toWorkspace).1 = none := by decide
  unfold ExactRestoration at h
  rw [hdone] at h
  have hcontent := h ["logo.png".toByteArray] (by decide)
  revert hcontent
  decide

end Wazir.Checkpoints
