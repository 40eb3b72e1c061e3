import Mathlib
import Wazir.Shared.Strings

/-! A workspace on disk, what a checkpoint captures of it and what a rollback puts back
(`snapshotWorkspaceFiles`, `restoreSnapshotToDirectory` and `rollback` of
`services/checkpointService.ts`). Names and contents are bytes; JavaScript sees their text. No read or
write fails by itself. -/

namespace Wazir.Checkpoints

/-! UTF-8 as Node decodes it: what is not valid becomes U+FFFD. -/

/-- A character that is not complete yet. -/
structure Utf8Pending where
  needed : ℕ
  lower : UInt8
  upper : UInt8
  point : ℕ

/-- The first byte of a character. -/
def utf8Lead (b : UInt8) : List Char × Option Utf8Pending :=
  if b < 0x80 then ([Char.ofNat b.toNat], none)
  else if 0xC2 ≤ b ∧ b ≤ 0xDF then ([], some ⟨1, 0x80, 0xBF, (b &&& 0x1F).toNat⟩)
  else if 0xE0 ≤ b ∧ b ≤ 0xEF then
    ([], some ⟨2, if b = 0xE0 then 0xA0 else 0x80, if b = 0xED then 0x9F else 0xBF,
      (b &&& 0x0F).toNat⟩)
  else if 0xF0 ≤ b ∧ b ≤ 0xF4 then
    ([], some ⟨3, if b = 0xF0 then 0x90 else 0x80, if b = 0xF4 then 0x8F else 0xBF,
      (b &&& 0x07).toNat⟩)
  else (['\uFFFD'], none)

def utf8Byte (pending : Option Utf8Pending) (b : UInt8) : List Char × Option Utf8Pending :=
  match pending with
  | none => utf8Lead b
  | some p =>
    if p.lower ≤ b ∧ b ≤ p.upper then
      let point := p.point * 64 + (b &&& 0x3F).toNat
      if p.needed = 1 then ([Char.ofNat point], none)
      else ([], some ⟨p.needed - 1, 0x80, 0xBF, point⟩)
    else
      let (chars, next) := utf8Lead b
      ('\uFFFD' :: chars, next)

def utf8Chars (pending : Option Utf8Pending) : List UInt8 → List Char
  | [] => if pending.isSome then ['\uFFFD'] else []
  | b :: rest =>
    let (chars, next) := utf8Byte pending b
    chars ++ utf8Chars next rest

/-- The text of bytes; valid UTF-8 is the text that it encodes. -/
def utf8Text (bytes : ByteArray) : String :=
  (String.fromUTF8? bytes).getD (String.ofList (utf8Chars none bytes.data.toList))

theorem utf8Text_valid {bytes : ByteArray} (h : bytes.IsValidUTF8) :
    (utf8Text bytes).toByteArray = bytes := by
  simp [utf8Text, String.fromUTF8?, h, String.fromUTF8]

/-! The tree. -/

instance lawfulByteArray : LawfulBEq ByteArray where
  eq_of_beq h := ByteArray.ext (eq_of_beq h)
  rfl := by
    intro a
    exact BEq.rfl (a := a.data)

/-- The names from the root of the workspace on. -/
abbrev Path := List ByteArray

/-- The regular files and the directories of a workspace. -/
structure Workspace where
  files : List (Path × ByteArray)
  dirs : List Path

namespace Workspace

def file (w : Workspace) (p : Path) : Option ByteArray := w.files.lookup p

def isFile (w : Workspace) (p : Path) : Bool := p ∈ w.files.map Prod.fst

/-- `fs.rm` of a file; of anything else its error is swallowed. -/
def rm (w : Workspace) (p : Path) : Workspace :=
  { w with files := w.files.filter fun kv => kv.1 ≠ p }

/-- `fs.mkdir` with `recursive`; none if a file is in the way. -/
def mkdir (w : Workspace) (p : Path) : Option Workspace :=
  let parents := p.inits.filter (· ≠ [])
  if parents.any w.isFile then none
  else some { w with dirs := w.dirs ++ parents.filter (· ∉ w.dirs) }

/-- `fs.writeFile`; none if a directory is in the way. -/
def writeFile (w : Workspace) (p : Path) (content : ByteArray) : Option Workspace :=
  if p = [] ∨ p ∈ w.dirs then none
  else some { w with files := w.files.filter (fun kv => kv.1 ≠ p) ++ [(p, content)] }

end Workspace

def legalName (n : ByteArray) : Prop :=
  n ≠ "".toByteArray ∧ n ≠ ".".toByteArray ∧ n ≠ "..".toByteArray ∧
    0x2F ∉ n.data.toList ∧ 0 ∉ n.data.toList

/-- A workspace as a file system holds it. -/
structure WorkspaceTree extends Workspace where
  distinct : (files.map Prod.fst).Nodup
  legal : ∀ kv ∈ files, kv.1 ≠ [] ∧ ∀ n ∈ kv.1, legalName n
  below : ∀ kv ∈ files, ∀ q, q <+: kv.1 → q ≠ [] → q ≠ kv.1 → q ∈ dirs
  apart : ∀ kv ∈ files, kv.1 ∉ dirs

/-! The snapshot. -/

def excludedName (name : String) : Bool :=
  name ∈ [".git", "node_modules", ".wazir", ".env"] ||
    (".env.".toList.isPrefixOf name.toList && name ≠ ".env.example")

def excluded (p : Path) : Bool := p.any fun n => excludedName (utf8Text n)

/-- `path.relative(workspaceRoot, fullPath).replace(/\\/g, '/')` -/
def relPath (p : Path) : String :=
  String.ofList ((['/'].intercalate (p.map fun n => (utf8Text n).toList)).map fun c =>
    if c = '\\' then '/' else c)

/-- The own properties of an object whose values are strings. -/
abbrev Snapshot := List (String × String)

/-- `snapshot[key] = value`; setting the prototype to a string does nothing. -/
def setKey (snapshot : Snapshot) (entry : String × String) : Snapshot :=
  if entry.1 = "__proto__" then snapshot
  else if entry.1 ∈ snapshot.map Prod.fst then
    snapshot.map fun kv => if kv.1 = entry.1 then entry else kv
  else snapshot ++ [entry]

/-- Node finds the file again under the text of its names. -/
def foundAgain (p : Path) : Bool := p.all fun n => (utf8Text n).toByteArray = n

/-- `snapshotWorkspaceFiles`; every file that is found can be read. -/
def snapshotWorkspaceFiles (w : Workspace) : Snapshot :=
  ((w.files.filter fun kv => !excluded kv.1 && foundAgain kv.1).map fun kv =>
    (relPath kv.1, utf8Text kv.2)).foldl setKey []

/-- The integer that a property name stands for. -/
def arrayIndex (key : String) : Option ℕ :=
  if key.toList.all Char.isDigit then
    let n := Nat.ofDigitChars 10 key.toList 0
    if toString n = key ∧ n < 4294967295 then some n else none
  else none

/-- `Object.entries`: integers come first, in their order. -/
def objectEntries (snapshot : Snapshot) : Snapshot :=
  sortBy (fun a b => compare ((arrayIndex a.1).getD 0) ((arrayIndex b.1).getD 0))
      (snapshot.filter fun kv => (arrayIndex kv.1).isSome) ++
    snapshot.filter fun kv => (arrayIndex kv.1).isNone

/-- What every object inherits. -/
def objectMembers : List String :=
  ["constructor", "hasOwnProperty", "isPrototypeOf", "propertyIsEnumerable", "toLocaleString",
    "toString", "valueOf", "__proto__", "__defineGetter__", "__defineSetter__", "__lookupGetter__",
    "__lookupSetter__"]

/-- `key in snapshot` -/
def inSnapshot (key : String) (snapshot : Snapshot) : Bool :=
  key ∈ snapshot.map Prod.fst || key ∈ objectMembers

/-! The restoration. -/

def parts (relative : String) : List String := (relative.toList.splitOn '/').map String.ofList

/-- The path that a checked name stands for. -/
def keyPath (relative : String) : Path := (parts relative).map String.toByteArray

/-- `path.win32.isAbsolute` -/
def windowsAbsolute : List Char → Bool
  | '/' :: _ | '\\' :: _ => true
  | c :: ':' :: '/' :: _ | c :: ':' :: '\\' :: _ => c.isAlpha
  | _ => false

def unsafePart (part : String) : Bool :=
  part ∈ ["", ".", "..", ".git", ".wazir", "node_modules"]

/-- Why an entry of the snapshot is refused; a file on the way to it makes `lstat` fail. -/
def pathError (w : Workspace) (relative : String) : Option String :=
  if relative = "" ∨ '\\' ∈ relative.toList ∨ '\x00' ∈ relative.toList ∨
      relative.toList.head? = some '/' ∨ windowsAbsolute relative.toList ∨
      (parts relative).any unsafePart then
    some ("UNSAFE_CHECKPOINT_PATH: " ++ relative)
  else if ((keyPath relative).inits.any fun q => q ≠ keyPath relative && w.isFile q) then
    some "ENOTDIR: not a directory, lstat"
  else none

/-- One part of `path.join`. -/
def joinPart (joined : List String) (part : String) : List String :=
  if part = "" ∨ part = "." then joined
  else if part = ".." then joined.dropLast
  else joined ++ [part]

/-- `path.join(root, relative)`, if it is in the workspace. -/
def joinRoot (root : List String) (relative : String) : Option Path :=
  let joined := (parts relative).foldl joinPart root
  if root <+: joined then some ((joined.drop root.length).map String.toByteArray) else none

/-- Remove a file that is not in the snapshot. -/
def removeKey (root : List String) (snapshot : Snapshot) (w : Workspace) (key : String) : Workspace :=
  if inSnapshot key snapshot then w
  else
    match joinRoot root key with
    | some p => w.rm p
    | none => w

def removeExtra (root : List String) (snapshot : Snapshot) (w : Workspace) : Workspace :=
  ((objectEntries (snapshotWorkspaceFiles w)).map Prod.fst).foldl (removeKey root snapshot) w

/-- What the restoration comes to: its error, if there is one, and the workspace it leaves. -/
abbrev Restoration := Option String × Workspace

def writeEntries : Snapshot → Workspace → Restoration
  | [], w => (none, w)
  | (relative, content) :: rest, w =>
    match w.mkdir (keyPath relative).dropLast with
    | none => (some "EEXIST: file already exists, mkdir", w)
    | some made =>
      match made.writeFile (keyPath relative) content.toByteArray with
      | none => (some "EISDIR: illegal operation on a directory, open", made)
      | some written => writeEntries rest written

def restoreSnapshotToDirectory (root : List String) (snapshot : Snapshot) (w : Workspace) :
    Restoration :=
  match (objectEntries snapshot).findSome? fun kv => pathError w kv.1 with
  | some error => (some error, w)
  | none => writeEntries (objectEntries snapshot) (removeExtra root snapshot w)

/-- What `rollback` looks up: the execution's parent and the checkpoint. -/
structure RollbackTarget where
  parentExecutionId : Option (Option String)
  checkpoint : Option (String × Snapshot)

/-- `rollback`, as far as the files go. -/
def rollback (root : List String) (executionId checkpointId : String) (target : RollbackTarget)
    (w : Workspace) : Restoration :=
  match target.parentExecutionId with
  | none => (some ("Execution '" ++ executionId ++ "' not found"), w)
  | some parent =>
    match target.checkpoint with
    | none => (some ("Checkpoint '" ++ checkpointId ++ "' not found"), w)
    | some (owner, snapshot) =>
      if owner ≠ executionId ∧ parent ≠ some owner then
        (some ("Invalid rollback target: checkpoint '" ++ checkpointId ++
          "' does not belong to execution '" ++ executionId ++ "'"), w)
      else restoreSnapshotToDirectory root snapshot w

end Wazir.Checkpoints
