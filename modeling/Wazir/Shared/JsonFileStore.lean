import Wazir.Async.Trace
import Wazir.Shared.JsValue

/-! The JSON file store (`shared/src/store.ts`). Values are their JSON images. The code between
two awaits of one instance runs without interruption and is one command on that instance; the
file system's steps and the lock are commands of their own. -/

namespace Wazir.Shared

open Wazir.Async

/-! Dates in JSON. -/

section Dates

-- what `JSON.stringify` writes for `new Date(s)`
variable (dateImage : String → Json)

mutual
/-- `reviveDatesInPlace`, on images: a string that looks like a date comes to be printed as
the `Date` it is turned into. -/
def reviveDates : Json → Json
  | .str s => if isIsoDateString s then dateImage s else .str s
  | .arr items => .arr (reviveItems items)
  | .obj fields => .obj (reviveFields fields)
  | v => v
def reviveItems : List Json → List Json
  | [] => []
  | v :: rest => reviveDates v :: reviveItems rest
def reviveFields : List (String × Json) → List (String × Json)
  | [] => []
  | (k, v) :: rest => (k, if k ∈ unsafeKeys then v else reviveDates v) :: reviveFields rest
end

/-- What revival changes for everyone who shares the value: a string is not changed in place. -/
def reviveShared : Json → Json
  | .str s => .str s
  | v => reviveDates dateImage v

end Dates

/-! Instances. -/

/-- A thrown error; `code` is that of a file-system error. -/
structure StoreError where
  code : Option String
  message : String

/-- `lastStat` is the fingerprint of the file the instance last read or wrote. -/
structure JsonFileStore where
  data : Table String Json
  revivedKeys : List String
  rawJsonByKey : Table String Json
  lastStat : Option ℕ
  loaded : Bool
  observedFile : Bool

def JsonFileStore.new : JsonFileStore := ⟨∅, [], ∅, none, false, false⟩

structure StoreHandle where
  process : ℕ
  index : ℕ
  deriving DecidableEq

def JsonFileStore.statMatches (store : JsonFileStore) (st : Option ℕ) : Bool :=
  store.loaded && store.lastStat.isSome && st = store.lastStat

/-- The cached texts, less those of the key that changes and of keys that are gone. -/
def keptTexts (raw data : Table String Json) (mutatedKey : String) : Table String Json :=
  let raw := if mutatedKey = "*" then ∅ else raw.erase mutatedKey
  raw.keys.foldl (fun raw cachedKey => if cachedKey ∈ data then raw else raw.erase cachedKey) raw

/-- `serializeMap`: the text of each key, from the cache where it has one. It is both the new
cache and what goes to the file. -/
def serializeMap (raw data : Table String Json) (mutatedKey : String) : Table String Json :=
  keptTexts raw data mutatedKey ∪ data

/-- The value under a key, revived unless it has been before. -/
def JsonFileStore.revived (dateImage : String → Json) (store : JsonFileStore)
    (data : Table String Json) (key : String) : Option Json :=
  if key ∈ store.revivedKeys then data.lookup key
  else (data.lookup key).map (reviveDates dateImage)

def JsonFileStore.addRevived (store : JsonFileStore) (key : String) : JsonFileStore :=
  { store with revivedKeys := key :: store.revivedKeys.filter (· ≠ key) }

/-- `ensureKeyRevived` on the instance's own snapshot. -/
def JsonFileStore.ensureKeyRevived (dateImage : String → Json) (store : JsonFileStore)
    (key : String) : JsonFileStore :=
  match store.data.lookup key with
  | none => store
  | some v =>
    if key ∈ store.revivedKeys then store
    else ({ store with data := store.data.insert key (reviveDates dateImage v) }).addRevived key

def JsonFileStore.forget (store : JsonFileStore) (lastStat : Option ℕ) : JsonFileStore :=
  { store with revivedKeys := [], rawJsonByKey := ∅, lastStat := lastStat }

def keysWithPrefix (data : Table String Json) (head : String) : List String :=
  data.keys.filter fun key => key.startsWith head

/-- The steps between two awaits, one for each place that makes one. `adopt` is set where the
map just read is assigned to `data`, `shared` where the value is also the snapshot's. -/
inductive StoreUpdate where
  | look
  | noFile (adopt : Bool)
  | read (st : Option ℕ) (parsed : Table String Json) (adopt : Bool)
  | readFailed
  | reviveKey (key : String)
  | reviveAll (head : String)
  | updating (key : String) (shared : Bool)
  | addRevived (key : String)
  | dropRevived (key : String)
  | clearRevived
  | serialize (data : Table String Json) (mutatedKey : String)
  | renamed
  | statted (st : Option ℕ)
  | adopted (data : Table String Json)

def StoreUpdate.apply (dateImage : String → Json) (store : JsonFileStore) :
    StoreUpdate → JsonFileStore
  | .look => store
  | .noFile adopt =>
    if adopt then { store.forget none with data := ∅, loaded := true } else store.forget none
  | .read st parsed adopt =>
    let store := { store.forget st with observedFile := true }
    if adopt then { store with data := parsed, loaded := true } else store
  | .readFailed => { store with lastStat := none }
  | .reviveKey key => store.ensureKeyRevived dateImage key
  | .reviveAll head =>
    (keysWithPrefix store.data head).foldl (·.ensureKeyRevived dateImage ·) store
  | .updating key shared =>
    match store.data.lookup key with
    | some v =>
      if shared && key ∉ store.revivedKeys then
        { store with data := store.data.insert key (reviveShared dateImage v) }
      else store
    | none => store
  | .addRevived key => store.addRevived key
  | .dropRevived key => { store with revivedKeys := store.revivedKeys.filter (· ≠ key) }
  | .clearRevived => { store with revivedKeys := [] }
  | .serialize data mutatedKey =>
    { store with rawJsonByKey := serializeMap store.rawJsonByKey data mutatedKey }
  | .renamed => { store with observedFile := true }
  | .statted st => { store with lastStat := st }
  | .adopted data => { store with data := data, loaded := true }

/-! Commands. -/

inductive TmpStep where
  | dir | open | write | sync | close
  deriving DecidableEq

/-- `tmp` steps prepare the temporary file; a `rename` is one of up to five attempts. -/
inductive StoreOp where
  | mkdir
  | acquire (h : StoreHandle)
  | release (token : ℕ)
  | stat
  | readFile
  | tmp (step : TmpStep)
  | rename (contents : Table String Json) (attempt : ℕ)
  | chmod
  | fsyncDir
  | store (h : StoreHandle) (u : StoreUpdate)

/-- For `stat` and `readFile`, `none` is `ENOENT`. -/
abbrev StoreRes : StoreOp → Type
  | .mkdir => Except StoreError Unit
  | .acquire _ => Except StoreError ℕ
  | .release _ => Unit
  | .stat => Except StoreError (Option ℕ)
  | .readFile => Except StoreError (Option (Table String Json))
  | .tmp _ => Except StoreError Unit
  | .rename _ _ => Except StoreError Unit
  | .chmod => Unit
  | .fsyncDir => Unit
  | .store _ _ => JsonFileStore

/-- `stat` stands for inode, times and size together; it is assumed that every change of the file
gives it a new one. -/
structure StoredFile where
  contents : Table String Json
  stat : ℕ

structure StoreShared where
  file : Option StoredFile
  stamps : ℕ
  lock : Option (StoreHandle × ℕ)
  tokens : ℕ
  stores : Table StoreHandle JsonFileStore

def StoreShared.store (s : StoreShared) (h : StoreHandle) : JsonFileStore :=
  (s.stores.lookup h).getD .new

def StoreShared.setStore (s : StoreShared) (h : StoreHandle) (store : JsonFileStore) :
    StoreShared :=
  { s with stores := s.stores.insert h store }

/-- A lock is free again once its holder's process is dead. -/
def StoreShared.crash (process : ℕ) (s : StoreShared) : StoreShared :=
  { s with lock := s.lock.filter fun l => l.1.process ≠ process }

structure StoreInput where
  fault : Option StoreError

def storeExec (dateImage : String → Json) (op : StoreOp) (inp : StoreInput) (s : StoreShared) :
    Option (StoreRes op × StoreShared) :=
  match op with
  | .mkdir => some (guarded inp.fault (), s)
  | .acquire h =>
    match inp.fault with
    | some e => some (.error e, s)
    | none =>
      if s.lock.isSome then none
      else some (.ok s.tokens, { s with lock := some (h, s.tokens), tokens := s.tokens + 1 })
  | .release token =>
    some ((), if inp.fault.isNone ∧ s.lock.map Prod.snd = some token then { s with lock := none }
      else s)
  | .stat => some (guarded inp.fault (s.file.map StoredFile.stat), s)
  | .readFile => some (guarded inp.fault (s.file.map StoredFile.contents), s)
  | .tmp _ => some (guarded inp.fault (), s)
  | .rename contents _ =>
    match inp.fault with
    | some e => some (.error e, s)
    | none =>
      some (.ok (), { s with file := some ⟨contents, s.stamps⟩, stamps := s.stamps + 1 })
  | .chmod =>
    some ((), if inp.fault.isSome then s
      else { s with file := s.file.map fun f => { f with stat := s.stamps }, stamps := s.stamps + 1 })
  | .fsyncDir => some ((), s)
  | .store h u => some (s.store h, s.setStore h (u.apply dateImage (s.store h)))

/-! Procedures. -/

abbrev StoreProg := Prog StoreOp StoreRes StoreError

namespace JsonFileStore

def lift {α : Type} : Except StoreError α → StoreProg α
  | .ok a => .ret a
  | .error e => .raise e

def touch (h : StoreHandle) (u : StoreUpdate) : StoreProg Unit := .call (.store h u) fun _ => .ret ()

def noEntry : StoreError := ⟨some "ENOENT", "ENOENT: no such file or directory"⟩

def currentStat (h : StoreHandle) : StoreProg (Option ℕ) :=
  .call .stat fun
    | .error e => .raise e
    | .ok (some st) => .ret (some st)
    | .ok none => .call (.store h .look) fun store =>
      if store.observedFile then .raise noEntry else .ret none

/-- `readFromDisk` of a file with a known fingerprint, or of none; `adopt` is for the caller's
assignment to `data`. -/
def readKnown (h : StoreHandle) (adopt : Bool) : Option ℕ → StoreProg (Table String Json)
  | none => do
    touch h (.noFile adopt)
    return ∅
  | some st => .call .readFile fun
    | .error e => do
      touch h .readFailed
      .raise e
    | .ok (some parsed) => do
      touch h (.read (some st) parsed adopt)
      return parsed
    | .ok none => .call (.store h .look) fun store =>
      if store.observedFile then do
        touch h .readFailed
        .raise noEntry
      else do
        touch h (.noFile adopt)
        return ∅

def readFromDisk (h : StoreHandle) (knownStat : Option ℕ) (adopt : Bool) :
    StoreProg (Table String Json) :=
  match knownStat with
  | some st => readKnown h adopt (some st)
  | none => do
    let known ← (currentStat h).handle fun e => do
      touch h .readFailed
      .raise e
    readKnown h adopt known

def reloadFromDisk (h : StoreHandle) : StoreProg Unit := do
  match ← currentStat h with
  | none => touch h (.noFile true)
  | some st => .call (.store h .look) fun store =>
    if store.statMatches (some st) then .ret ()
    else do
      let _ ← readFromDisk h (some st) true
      return

/-- Whether a failed attempt to rename is tried again. -/
def renamesAgain (attempt : ℕ) (e : StoreError) : Bool :=
  attempt < 4 && e.code ∈ [some "EPERM", some "EBUSY", some "EACCES"]

/-- The loop of renames, with the attempts that are left after this one. -/
def renameFrom (contents : Table String Json) : ℕ → StoreProg Unit
  | 0 => .call (.rename contents 4) lift
  | left + 1 => .call (.rename contents (3 - left)) fun
    | .ok _ => .ret ()
    | .error e => if renamesAgain (3 - left) e then renameFrom contents left else .raise e

def tmpStep (step : TmpStep) : StoreProg Unit := .call (.tmp step) lift

def persist (h : StoreHandle) (data : Table String Json) (mutatedKey : String) :
    StoreProg Unit := do
  tmpStep .dir
  .call (.store h (.serialize data mutatedKey)) fun store => do
    let serialized := serializeMap store.rawJsonByKey data mutatedKey
    tmpStep .open
    (do tmpStep .write; tmpStep .sync : StoreProg Unit).ensure (tmpStep .close)
    renameFrom serialized 4
    .call .chmod fun _ => .call .fsyncDir fun _ => do
      touch h .renamed
      let st ← (currentStat h).handle fun _ => .ret none
      touch h (.statted st)

/-- The mutation is given the copy of the map, and whether its values are the snapshot's. -/
def withLock (h : StoreHandle)
    (mutate : Bool → Table String Json → StoreProg (Table String Json)) (mutatedKey : String) :
    StoreProg Unit :=
  .call .mkdir fun
    | .error e => .raise e
    | .ok _ => .call (.acquire h) fun
      | .error e => .raise e
      | .ok token =>
        (do
          let st ← currentStat h
          let store ← (.call (.store h .look) .ret : StoreProg JsonFileStore)
          let shared := store.statMatches st
          let data ← if shared then .ret store.data else readFromDisk h st false
          let data ← mutate shared data
          persist h data mutatedKey
          touch h (.adopted data) : StoreProg Unit).ensure
        (.call (.release token) fun _ => .ret ())

section Operations

variable (dateImage : String → Json)

def update (h : StoreHandle) (key : String) (mutate : Option Json → Except StoreError Json) :
    StoreProg Unit :=
  withLock h (fun shared data => .call (.store h (.updating key shared)) fun store => do
    let value ← lift (mutate (store.revived dateImage data key))
    touch h (.addRevived key)
    return data.insert key value) key

def put (h : StoreHandle) (key : String) (value : Json) : StoreProg Unit :=
  withLock h (fun _ data => do
    touch h (.addRevived key)
    return data.insert key value) key

def delete (h : StoreHandle) (key : String) : StoreProg Unit :=
  withLock h (fun _ data => do
    touch h (.dropRevived key)
    return data.erase key) key

def clear (h : StoreHandle) : StoreProg Unit :=
  withLock h (fun _ _ => do
    touch h .clearRevived
    return ∅) "*"

def get (h : StoreHandle) (key : String) : StoreProg (Option Json) := do
  reloadFromDisk h
  .call (.store h (.reviveKey key)) fun store => .ret (store.revived dateImage store.data key)

def list (h : StoreHandle) (head : String) : StoreProg (List (String × Json)) := do
  reloadFromDisk h
  .call (.store h (.reviveAll head)) fun store =>
    .ret ((keysWithPrefix store.data head).filterMap fun key =>
      (store.revived dateImage store.data key).map fun v => (key, v))

end Operations

end JsonFileStore

/-! The system. -/

inductive StoreCall where
  | get (key : String)
  | list (head : String)
  | update (key : String) (mutate : Option Json → Except StoreError Json)
  | put (key : String) (value : Json)
  | delete (key : String)
  | clear

structure StoreRequest where
  handle : StoreHandle
  call : StoreCall

/-- What a call returns: the entries it read. -/
def StoreRequest.body (dateImage : String → Json) (r : StoreRequest) :
    StoreProg (List (String × Json)) :=
  match r.call with
  | .get key =>
    (fun v => v.toList.map fun v => (key, v)) <$> JsonFileStore.get dateImage r.handle key
  | .list head => JsonFileStore.list dateImage r.handle head
  | .update key mutate => (fun _ => []) <$> JsonFileStore.update dateImage r.handle key mutate
  | .put key value => (fun _ => []) <$> JsonFileStore.put r.handle key value
  | .delete key => (fun _ => []) <$> JsonFileStore.delete r.handle key
  | .clear => (fun _ => []) <$> JsonFileStore.clear r.handle

def storeSystem (dateImage : String → Json) : System StoreOp StoreRes StoreError
    (List (String × Json)) StoreRequest ℕ StoreInput StoreShared where
  body := StoreRequest.body dateImage
  proc r := r.handle.process
  exec := storeExec dateImage
  admits _ s := some s
  crash := StoreShared.crash

abbrev StoreEntry := Entry StoreOp StoreRes StoreRequest StoreInput StoreShared
abbrev StoreHist := Hist StoreOp StoreRes StoreRequest ℕ StoreInput StoreShared
abbrev StoreConfig := Config StoreOp StoreRes StoreError (List (String × Json)) StoreRequest ℕ
  StoreInput StoreShared

/-- No instance yet, and a file or none. -/
def onDisk (contents : Option (Table String Json)) : StoreShared :=
  ⟨contents.map fun c => ⟨c, 0⟩, 1, none, 0, ∅⟩

/-! Lookups in what is written. -/

theorem lookup_foldl_erase {data : Table String Json} (keys : List String)
    (raw : Table String Json) (k : String) :
    (keys.foldl (fun raw c => if c ∈ data then raw else raw.erase c) raw).lookup k =
      if k ∈ keys ∧ k ∉ data then none else raw.lookup k := by
  induction keys generalizing raw with
  | nil => simp
  | cons c rest ih =>
    rw [List.foldl_cons, ih]
    by_cases hc : c ∈ data
    · rw [if_pos hc]
      by_cases hk : k = c
      · subst hk
        simp [hc]
      · simp [hk]
    · rw [if_neg hc]
      by_cases hk : k = c
      · subst hk
        simp [hc, AList.lookup_erase]
      · rw [AList.lookup_erase_ne hk]
        simp [hk]

variable {mutatedKey k : String}

theorem lookup_keptTexts {raw data : Table String Json} {v : Json}
    (h : (keptTexts raw data mutatedKey).lookup k = some v) :
    k ≠ mutatedKey ∧ k ∈ data ∧ raw.lookup k = some v := by
  unfold keptTexts at h
  rw [lookup_foldl_erase] at h
  split_ifs at h with hstar hin hin
  · simp at h
  · have hk : k ≠ mutatedKey := by
      rintro rfl
      rw [AList.lookup_erase] at h
      cases h
    have hmem : k ∈ raw.erase mutatedKey := AList.lookup_isSome.mp (by rw [h]; rfl)
    rw [AList.lookup_erase_ne hk] at h
    refine ⟨hk, not_not.mp fun hd => hin ⟨?_, hd⟩, h⟩
    exact AList.mem_keys.mp hmem

/-- A key's text is its value's, or a cached one of a key that is not the one to change. -/
theorem lookup_serializeMap {raw data : Table String Json} {v : Json}
    (h : (serializeMap raw data mutatedKey).lookup k = some v) :
    data.lookup k = some v ∨ k ≠ mutatedKey ∧ k ∈ data ∧ raw.lookup k = some v := by
  rcases AList.lookup_union_eq_some.mp h with hkept | ⟨-, hdata⟩
  · exact .inr (lookup_keptTexts hkept)
  · exact .inl hdata

theorem mem_serializeMap {raw data : Table String Json} :
    k ∈ serializeMap raw data mutatedKey ↔ k ∈ data := by
  rw [serializeMap, AList.mem_union]
  constructor
  · rintro (h | h)
    · obtain ⟨v, hv⟩ := Option.isSome_iff_exists.mp (AList.lookup_isSome.mpr h)
      exact (lookup_keptTexts hv).2.1
    · exact h
  · exact .inr

/-- As long as the cached texts of the other keys are those of their values, the text is that
of the map. -/
theorem serializeMap_eq {raw data : Table String Json} {mutatedKey : String}
    (h : ∀ k v, k ≠ mutatedKey → k ∈ data → raw.lookup k = some v → data.lookup k = some v)
    (k : String) : (serializeMap raw data mutatedKey).lookup k = data.lookup k := by
  cases hk : (serializeMap raw data mutatedKey).lookup k with
  | none =>
    rw [AList.lookup_eq_none, mem_serializeMap, ← AList.lookup_eq_none] at hk
    exact hk.symm
  | some v =>
    rcases lookup_serializeMap hk with hd | ⟨hne, hmem, hraw⟩
    · exact hd.symm
    · exact (h k v hne hmem hraw).symm

end Wazir.Shared
