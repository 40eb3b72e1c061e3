import Mathlib.Data.List.Infix
import Wazir.Checkpoints.Workspace
import Wazir.Core.ToolCheckpoints
import Wazir.Shared.JsonRoundTrip

/-! What the inspection of an interrupted call says of the file (`inspectToolOutcome` in
`tools/src/outcomeInspection.ts`), and what the `write` and `edit` tools leave of it wherever they are
cut off (`filesystem.ts`, `writeProjectFile` in `paths.ts`). -/

namespace Wazir.Tools

open Checkpoints (utf8Text)
open Core (ToolSideEffectClass)

/-- A string, by its code units. -/
abbrev Units := List ℕ

/-- `Buffer.from(s, 'utf8')`: a surrogate without its other half is written as U+FFFD. -/
def encode (s : Units) : ByteArray := (String.ofList (ofUnits s)).toByteArray

/-- `bytes.toString('utf8')` -/
def decode (bytes : ByteArray) : Units := utf16 (utf8Text bytes)

/-- `s.toWellFormed()` -/
def toWellFormed (s : Units) : Units := (ofUnits s).flatMap charUnits

/-- `s.includes(part)` -/
def includes (s part : Units) : Bool := decide (part <:+: s)

/-- `s.split(separator)`, of a separator that is not empty; `skip` units belong to one that was found. -/
def split (separator : Units) : ℕ → Units → List Units
  | _, [] => [[]]
  | skip + 1, _ :: rest => split separator skip rest
  | 0, unit :: rest =>
    if separator.isPrefixOf (unit :: rest) then [] :: split separator (separator.length - 1) rest
    else match split separator 0 rest with
      | [] => [[unit]]
      | piece :: pieces => (unit :: piece) :: pieces

/-- `s.replace(part, () => by)` -/
def replace (part by' : Units) : Units → Units
  | [] => if part = [] then by' else []
  | unit :: rest =>
    if part.isPrefixOf (unit :: rest) then by' ++ (unit :: rest).drop part.length
    else unit :: replace part by' rest

/-- A member of the input: whether it is a string, and `String(v ?? '')`. -/
structure Argument where
  isString : Bool
  text : Units

/-- `typeof v === 'string' ? v : ''` -/
def Argument.orEmpty (a : Argument) : Units := if a.isString then a.text else []

structure ToolInput where
  path : Argument
  content : Argument
  oldString : Argument
  newString : Argument
  replaceAll : Bool

structure ToolCall where
  toolName : String
  input : ToolInput
  sideEffectClass : ToolSideEffectClass

/-! The tools. -/

inductive FileTool where
  | write
  | edit
  deriving DecidableEq

def FileTool.name : FileTool → String
  | .write => "write"
  | .edit => "edit"

/-- As the descriptor says, or as the registry fills it in. -/
def FileTool.sideEffectClass : FileTool → ToolSideEffectClass
  | .write => .idempotentWrite
  | .edit => .nonIdempotentWrite

def FileTool.call (tool : FileTool) (input : ToolInput) : ToolCall :=
  ⟨tool.name, input, tool.sideEffectClass⟩

/-- The file that a path leads to, and the temporary file beside it. -/
structure Place where
  target : Option ByteArray
  temp : Option ByteArray

/-- What the path allows: `resolveInsideProject` throws, or reading throws something other than
`ENOENT`. -/
inductive Access where
  | granted
  | unreadable (message : Units)
  | refused (message : Units)

/-- `writeProjectFile`, by the places it goes through: the temporary file is made, filled, and renamed
over the target. -/
def writeProjectFile (target : Option ByteArray) (content : Units) : List Place :=
  let bytes := encode content
  ⟨target, none⟩ :: ((List.range (bytes.size + 1)).map fun n => ⟨target, some (bytes.extract 0 n)⟩) ++
    [⟨some bytes, none⟩]

/-- `raw.split(oldString).length - 1` -/
def occurrences (raw oldString : Units) : ℕ := (split oldString 0 raw).length - 1

/-- What `edit` writes. -/
def edited (input : ToolInput) (raw : Units) : Units :=
  if input.replaceAll then
    input.newString.text.intercalate (split input.oldString.text 0 raw)
  else replace input.oldString.text input.newString.text raw

/-- The places that a call goes through. One that fails leaves the file alone. -/
def FileTool.execute (tool : FileTool) (access : Access) (input : ToolInput)
    (target : Option ByteArray) : List Place :=
  match tool, access with
  | _, .refused _ => [⟨target, none⟩]
  | .write, _ => writeProjectFile target input.content.text
  | .edit, .unreadable _ => [⟨target, none⟩]
  | .edit, .granted =>
    match target with
    | none => [⟨target, none⟩]
    | some bytes =>
      let raw := decode bytes
      if input.oldString.text = [] ∨ occurrences raw input.oldString.text = 0 then [⟨target, none⟩]
      else writeProjectFile target (edited input raw)

/-- The file that the call leaves when nothing interrupts it. -/
def FileTool.completed (tool : FileTool) (access : Access) (input : ToolInput)
    (target : Option ByteArray) : Option ByteArray :=
  match (tool.execute access input target).getLast? with
  | some place => place.target
  | none => target

/-! The inspection. -/

inductive Outcome where
  | applied
  | notApplied
  | undetermined
  deriving DecidableEq

structure ToolOutcomeInspection where
  outcome : Outcome
  evidence : Units

def quoted (path : Units) (text : String) : Units := utf16 "'" ++ path ++ utf16 ("'" ++ text)

/-- The inspection of a `write` call, with the contents that were read. -/
def inspectWrite (input : ToolInput) (current : Option Units) : ToolOutcomeInspection :=
  if !input.content.isString then
    ⟨.undetermined, utf16 "write call has no recorded content to compare"⟩
  else if current = some input.content.text then
    ⟨.applied, quoted input.path.text " holds exactly the intended content"⟩
  else
    ⟨.notApplied, quoted input.path.text (
      (if current = none then " does not exist" else " differs from the intended content") ++
        "; write sets exact content, so re-issuing it is safe")⟩

/-- Presence of the two texts decides nothing. -/
def overlapping (input : ToolInput) : Bool :=
  let oldString := input.oldString.orEmpty
  let newString := input.newString.orEmpty
  oldString = [] || input.replaceAll || includes oldString newString || includes newString oldString

def inspectEdit (input : ToolInput) (current : Option Units) : ToolOutcomeInspection :=
  match current with
  | none => ⟨.undetermined, quoted input.path.text " no longer exists"⟩
  | some current =>
    if overlapping input then
      ⟨.undetermined, utf16 ("edit text overlaps or replaces all occurrences; " ++
        "presence checks cannot prove the outcome")⟩
    else
      let hasOld := includes current input.oldString.orEmpty
      let hasNew := includes current input.newString.orEmpty
      if hasOld && !hasNew then
        ⟨.notApplied, quoted input.path.text
          " still contains the original text and not the replacement"⟩
      else if !hasOld && hasNew then
        ⟨.applied, quoted input.path.text " contains the replacement and not the original text"⟩
      else
        ⟨.undetermined, quoted input.path.text (" contains " ++ (if hasOld then "both" else "neither") ++
          " the original and the replacement text")⟩

/-- `inspectToolOutcome` -/
def inspectToolOutcome (call : ToolCall) (access : Access) (target : Option ByteArray) :
    ToolOutcomeInspection :=
  if call.sideEffectClass = .readOnly then
    ⟨.notApplied, utf16 ("'" ++ call.toolName ++
      "' is read-only; an interrupted call left no side effect")⟩
  else if (call.toolName ≠ "write" ∧ call.toolName ≠ "edit") ∨ !call.input.path.isString then
    ⟨.undetermined, utf16 ("no physical check can prove whether '" ++ call.toolName ++
      "' took effect")⟩
  else match access with
    | .granted =>
      let current := target.map decode
      if call.toolName = "write" then inspectWrite call.input current
      else inspectEdit call.input current
    | .unreadable message | .refused message =>
      ⟨.undetermined, utf16 "cannot read '" ++ call.input.path.text ++ utf16 "': " ++ message⟩

end Wazir.Tools
