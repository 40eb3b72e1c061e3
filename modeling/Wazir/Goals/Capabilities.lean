import Mathlib.Algebra.Order.Floor.Ring
import Mathlib.Data.Rat.Floor
import Wazir.Shared.JsValue
import Wazir.Shared.Strings
import Wazir.Shared.Values

/-! What a target requires of a model (`routing/capabilities.ts`): the parsed requirements, and what
it means that one instance of a model satisfies them. -/

namespace Wazir.Goals.Fleet

/-- What the router uses of the language: how numbers are written, and the locale. -/
structure Language where
  localeCompare : String → String → Ordering
  toLowerCase : String → String
  showNumber : ℚ → String
  /-- `n.toFixed(1)` -/
  toFixed1 : ℚ → String

inductive ModelLifecycleState where
  | discovered
  | installed
  | loading
  | loaded
  | ready
  | draining
  | unloaded
  | unloading
  | failed
  | unavailable
  deriving DecidableEq

inductive HealthLevel where
  | healthy
  | degraded
  | unavailable
  deriving DecidableEq

inductive CheckVerdict where
  | verified
  | failed
  | untested
  deriving DecidableEq

def CheckVerdict.name : CheckVerdict → String
  | .verified => "verified"
  | .failed => "failed"
  | .untested => "untested"

structure ModelPerformanceProfile where
  samples : ℕ
  verifiedSuccessRate : ℚ

structure ModelRecord where
  id : String
  family : String
  contextMax : ℕ
  configuredContext : Option ℕ
  capabilities : List String
  toolCalling : Bool
  structuredOutput : Bool
  vision : Bool
  audio : Bool
  embedding : Bool
  reasoning : Bool
  minSystemGB : Option ℚ
  /-- None is `'any'`. -/
  runtimeCompatibility : Option (List String)
  isLocal : Bool
  performance : List (String × ModelPerformanceProfile)

structure ModelInstance where
  id : String
  modelId : String
  computerId : Option String
  runtimeId : String
  loaded : Bool
  state : Option ModelLifecycleState
  health : HealthLevel
  contextTokens : Option ℕ
  error : Option String

structure ReadinessRecord where
  ready : Bool
  checkedAt : String
  latencyMs : Option ℚ
  source : String
  toolUse : CheckVerdict
  reason : String

/-- `inherited` is what the table of aliases inherits under a key. -/
inductive CapabilityFlag where
  | vision
  | structuredOutput
  | reasoning
  | embedding
  | audio
  | inherited (key : String)
  deriving DecidableEq

def CapabilityFlag.text : CapabilityFlag → String
  | .vision => "vision"
  | .structuredOutput => "structuredOutput"
  | .reasoning => "reasoning"
  | .embedding => "embedding"
  | .audio => "audio"
  | .inherited key =>
    if key = "constructor" then "function Object() \x7b [native code] \x7d" else "[object Object]"

structure CapabilityRequirements where
  toolCalling : Bool
  flags : List CapabilityFlag
  minContextTokens : ℕ
  localOnly : Bool
  declared : List String
  invalid : List String

def toolAliases : List String :=
  ["toolcalling", "tools", "tool-use", "tool_use", "tooluse", "function-calling", "functioncalling",
    "tool-calling"]

def flagAliases (lower : String) : Option CapabilityFlag :=
  if lower = "constructor" ∨ lower = "__proto__" then some (.inherited lower)
  else
    [("vision", CapabilityFlag.vision), ("structuredoutput", .structuredOutput),
      ("structured-output", .structuredOutput), ("json", .structuredOutput),
      ("reasoning", .reasoning), ("embedding", .embedding), ("embeddings", .embedding),
      ("audio", .audio)].lookup lower

def declaredSynonyms (lower : String) : List String :=
  ([("text-generation", ["generalchat", "text-generation"]),
    ("code-generation", ["coding", "code-generation"]),
    ("formal-verification", ["reasoning", "formal-verification"])].lookup lower).getD [lower]

/-- `/^(\d+(?:\.\d+)?)\s*(k|m)?$/`, read as a number of tokens. -/
def parseTokens (value : List Char) : Option ℕ :=
  let whole := value.takeWhile Char.isDigit
  let afterWhole := value.dropWhile Char.isDigit
  let fraction := match afterWhole with
    | '.' :: rest => rest.takeWhile Char.isDigit
    | _ => []
  let rest := if fraction = [] then afterWhole else afterWhole.drop (fraction.length + 1)
  let unit : Option ℚ := match rest.dropWhile isWhiteSpace with
    | [] => some 1
    | ['k'] => some 1024
    | ['m'] => some (1024 * 1024)
    | _ => none
  if whole = [] then none
  else
    unit.bind fun unit =>
      let n := (Nat.ofDigitChars 10 whole 0 + (Nat.ofDigitChars 10 fraction 0 : ℚ) /
        10 ^ fraction.length) * unit
      if 0 < n then some ⌊n + 1 / 2⌋.toNat else none

/-- `/^(?:context|mincontext|min-context|context-tokens)\s*(?::|>=|=)\s*(.+)$/`, its group. -/
def contextValue (lower : String) : Option (List Char) :=
  ["context", "mincontext", "min-context", "context-tokens"].findSome? fun start =>
    if start.toList.isPrefixOf lower.toList then
      let value := match (lower.toList.drop start.length).dropWhile isWhiteSpace with
        | ':' :: rest => some rest
        | '>' :: '=' :: rest => some rest
        | '=' :: rest => some rest
        | _ => none
      (value.map (·.dropWhile isWhiteSpace)).filter fun value =>
        value ≠ [] && !value.any isLineTerminator
    else none

section Parse

variable (language : Language)

/-- One entry of the required capabilities. -/
def parseCapability (out : CapabilityRequirements) (entry : String) : CapabilityRequirements :=
  let cap := trim entry
  let lower := language.toLowerCase cap
  if cap = "" then out
  else
    match contextValue lower with
    | some value =>
      match parseTokens value with
      | none => { out with invalid := out.invalid ++ [cap] }
      | some tokens => { out with minContextTokens := max out.minContextTokens tokens }
    | none =>
      if lower ∈ toolAliases then { out with toolCalling := true }
      else
        match flagAliases lower with
        | some flag =>
          if flag ∈ out.flags then out else { out with flags := out.flags ++ [flag] }
        | none =>
          if lower = "local" ∨ lower = "local-only" then { out with localOnly := true }
          else if cap ∈ out.declared then out
          else { out with declared := out.declared ++ [cap] }

def parseCapabilities (required : List String) : CapabilityRequirements :=
  required.foldl (parseCapability language) ⟨false, [], 0, false, [], []⟩

end Parse

/-- Context the instance can actually serve: a runtime-reported window wins over the record. -/
def instanceContextTokens (record : ModelRecord) (instance' : ModelInstance) : ℕ :=
  instance'.contextTokens.getD (record.configuredContext.getD record.contextMax)

def supports (record : ModelRecord) : CapabilityFlag → Bool
  | .vision => record.vision
  | .structuredOutput => record.structuredOutput || "structuredOutput" ∈ record.capabilities
  | .reasoning => record.reasoning || "reasoning" ∈ record.capabilities
  | .embedding => record.embedding
  | .audio => record.audio
  | .inherited _ => record.audio

section Check

variable (language : Language) (req : CapabilityRequirements) (record : ModelRecord)
  (instance' : ModelInstance) (readiness : ReadinessRecord)

def declares (cap : String) : Bool :=
  let lowerCap := language.toLowerCase cap
  record.capabilities.any (fun c => language.toLowerCase c ∈ declaredSynonyms lowerCap) ||
    lowerCap = "text-generation" && 0 < record.capabilities.length ||
    lowerCap = "formal-verification" && record.reasoning

/-- The reason of each item, up to the first that fails. -/
def checkEach {α : Type} (ok : α → Bool) (reason rejection : α → String) :
    List α → Except String (List String)
  | [] => .ok []
  | a :: rest =>
    if ok a then (checkEach ok reason rejection rest).map (reason a :: ·) else .error (rejection a)

def rejectWhen (failed : Bool) (why : String) : Except String Unit :=
  if failed then .error why else .ok ()

/-- The satisfied checks as reasons, or the first failure. -/
def checkCapabilities : Except String (List String) := do
  rejectWhen (req.invalid ≠ [])
    ("invalid capability requirement(s): " ++ String.intercalate ", " req.invalid)
  rejectWhen (req.toolCalling && !record.toolCalling)
    "tool calling required but the model does not declare support"
  rejectWhen (req.toolCalling && readiness.toolUse ≠ .verified)
    ("tool calling required but not verified by a readiness tool probe (" ++
      readiness.toolUse.name ++ ")")
  let flags ← checkEach (supports record) (fun flag => flag.text ++ ": supported")
    (fun flag => flag.text ++ " required but unsupported") req.flags
  let ctx := instanceContextTokens record instance'
  rejectWhen (ctx < req.minContextTokens)
    ("context " ++ toString ctx ++ " < required " ++ toString req.minContextTokens)
  let declared ← checkEach (declares language record) (fun cap => "capability '" ++ cap ++ "': present")
    (fun cap => "capability '" ++ cap ++ "' missing") req.declared
  return (if req.toolCalling then ["tool calling: declared and verified by probe"] else []) ++ flags ++
    (if 0 < req.minContextTokens then
      ["context " ++ toString ctx ++ " >= required " ++ toString req.minContextTokens] else []) ++
    declared

/-- The instance has every capability that is required. -/
structure Capable : Prop where
  readable : req.invalid = []
  toolCalling : req.toolCalling = true →
    record.toolCalling = true ∧ readiness.toolUse = .verified
  flags : ∀ flag ∈ req.flags, supports record flag = true
  context : req.minContextTokens ≤ instanceContextTokens record instance'
  declared : ∀ cap ∈ req.declared, declares language record cap = true

variable {language req record instance' readiness}

theorem rejectWhen_ok {failed : Bool} {why : String} {u : Unit} :
    rejectWhen failed why = .ok u ↔ failed = false := by
  cases failed <;> simp [rejectWhen]

theorem checkEach_ok {α : Type} {ok : α → Bool} {reason rejection : α → String} {as : List α} :
    (∃ reasons, checkEach ok reason rejection as = .ok reasons) ↔ ∀ a ∈ as, ok a = true := by
  induction as with
  | nil => simp [checkEach]
  | cons a as ih =>
    rw [checkEach, List.forall_mem_cons, ← ih]
    split_ifs with ha
    · cases checkEach ok reason rejection as <;> simp [Except.map, ha]
    · simp [ha]

theorem checkCapabilities_ok :
    (∃ reasons, checkCapabilities language req record instance' readiness = .ok reasons) ↔
      Capable language req record instance' readiness := by
  constructor
  · rintro ⟨reasons, h⟩
    simp only [checkCapabilities, except_bind_eq_ok, rejectWhen_ok] at h
    obtain ⟨-, hinvalid, -, hdeclared, -, hverified, flags, hflags, -, hcontext, caps, hcaps, -⟩ := h
    refine ⟨by simpa using hinvalid, fun ht => ?_, checkEach_ok.1 ⟨flags, hflags⟩,
      by simpa using hcontext, checkEach_ok.1 ⟨caps, hcaps⟩⟩
    simpa [ht] using And.intro hdeclared hverified
  · intro h
    obtain ⟨flags, hflags⟩ := checkEach_ok.2 h.flags
    obtain ⟨caps, hcaps⟩ := checkEach_ok.2 h.declared
    refine ⟨_, except_bind_eq_ok.2 ⟨(), rejectWhen_ok.2 ?_, except_bind_eq_ok.2 ⟨(), rejectWhen_ok.2 ?_,
      except_bind_eq_ok.2 ⟨(), rejectWhen_ok.2 ?_, except_bind_eq_ok.2 ⟨flags, hflags,
        except_bind_eq_ok.2 ⟨(), rejectWhen_ok.2 ?_, except_bind_eq_ok.2 ⟨caps, hcaps, rfl⟩⟩⟩⟩⟩⟩⟩
    · simpa using h.readable
    · rw [Bool.and_eq_false_imp]
      intro ht
      simpa using (h.toolCalling ht).1
    · rw [Bool.and_eq_false_imp]
      intro ht
      simpa using (h.toolCalling ht).2
    · simpa using h.context

end Check

end Wazir.Goals.Fleet
