import Wazir.Shared.Posix
import Wazir.Shared.Strings

/-! Containment of paths in the project root (`services/policyEngine.ts`): `physicalPath`,
`isInside`, and the decisions that allow an access because its path is inside. A path that
`path.resolve` has seen is the list of its components, and resolving it again leaves it as it is. The
files that the options of a command name for its output (`classifyWriteTarget`) are left out. -/

namespace Wazir.Policy

open Posix

/-- What the engine finds on its machine. Its own directory is a physical one. -/
structure Host where
  fs : FileSystem
  cwd : List String
  cwd_directory : fs.object cwd = some .directory

/-- The links that the system follows in one resolution before it answers `ELOOP`. -/
def symloopMax : ℕ := 40

/-- `path.resolve(base, p)`. -/
def resolve (base : List String) (p : String) : List String :=
  lexical (start base p) (components p)

/-- A path's components with slashes between them. -/
def joined : List String → String
  | [] => ""
  | [name] => name
  | name :: rest => name ++ "/" ++ joined rest

/-- The components of `path.relative(root, target)`. -/
def relative : List String → List String → List String
  | x :: root, y :: target =>
    if x = y then relative root target else (x :: root).map (fun _ => "..") ++ y :: target
  | root, target => root.map (fun _ => "..") ++ target

def hasPrefix (start s : String) : Bool := start.toList.isPrefixOf s.toList

def isInsideLexical (root target : List String) : Bool :=
  let rel := joined (relative root target)
  rel = "" || (!hasPrefix ".." rel && !isAbsolute rel)

section PhysicalPath

variable (fs : FileSystem)

/-- The loop of `physicalPath`; `rest` is the missing tail, from its end. -/
def physicalFrom (p : List String) : ℕ → List String → List String → List String
  | 0, _, _ => p
  | hops + 1, current, rest =>
    match realpath fs symloopMax current with
    | some real => real ++ rest.reverse
    | none =>
      match lstat fs symloopMax current with
      | some (.link target) => physicalFrom p hops (resolve current.dropLast target) rest
      | _ =>
        match current.getLast? with
        | none => p
        | some name => physicalFrom p hops current.dropLast (rest ++ [name])

/-- Physical location of `p`: links (dangling ones too) resolved, missing tail kept. -/
def physicalPath (p : List String) : List String := physicalFrom fs p 64 p []

def isInside (root target : List String) : Bool :=
  isInsideLexical root target && isInsideLexical (physicalPath fs root) (physicalPath fs target)

end PhysicalPath

def protectedDirs : List String :=
  [".git", ".wazir", ".rook", ".husky", ".githooks", "node_modules", ".github", ".vscode", ".idea"]

def protectedFiles : List String :=
  ["package.json", "package-lock.json", "npm-shrinkwrap.json", "pnpm-lock.yaml", "yarn.lock",
    "bun.lockb", ".npmrc", ".yarnrc", ".yarnrc.yml", ".pnpmfile.cjs", "pnpm-workspace.yaml", ".envrc",
    ".env", ".gitmodules"]

def lexicalProtectedPathReason (projectRoot absolute : List String) : Option String :=
  let segments := relative projectRoot absolute
  match segments, segments.getLast? with
  | first :: _, some base =>
    if hasPrefix ".." (joined segments) then none
    else if first ∈ protectedDirs then
      some ("'" ++ first ++
        "/' holds hooks, tooling or Wazir state that can change what runs on this machine")
    else if base ∈ protectedFiles ∨ hasPrefix ".env." base ∧ base ≠ ".env.example" then
      some ("'" ++ base ++ "' controls package scripts, lifecycle hooks or dependency resolution")
    else none
  | _, _ => none

def protectedPathReason (fs : FileSystem) (projectRoot absolute : List String) : Option String :=
  (lexicalProtectedPathReason projectRoot absolute).or
    (lexicalProtectedPathReason (physicalPath fs projectRoot) (physicalPath fs absolute))

inductive PolicyEffect where
  | allow
  | ask
  | deny
  deriving DecidableEq

structure PolicyDecision where
  decision : PolicyEffect
  rule : String
  reasons : List String
  deriving DecidableEq

def fileToolsRead : List String := ["read", "search", "glob"]

def fileToolsWrite : List String := ["write", "edit"]

def pathReadingCommands : List String :=
  ["ls", "cat", "head", "tail", "wc", "file", "stat", "du", "df", "tree", "rg", "grep", "find", "sort",
    "uniq", "cut", "column"]

namespace Host

variable (host : Host) (projectRoot : String)

def root : List String := resolve host.cwd projectRoot

/-- The rule for file tools; `lower` is the tool's name. -/
def classifyFileTool (tool lower : String) (rawPath : Option String) : PolicyDecision :=
  match rawPath.filter (· ≠ "") with
  | none =>
    if lower = "glob" ∨ lower = "search" then
      ⟨.allow, "filesystem-project-root-allow",
        ["'" ++ tool ++ "' with no path defaults to the project root"]⟩
    else ⟨.deny, "filesystem-outside-deny", ["tool '" ++ tool ++ "' requires a path argument"]⟩
  | some rawPath =>
    let absolute := resolve (host.root projectRoot) rawPath
    let write := lower ∈ fileToolsWrite
    if isInside host.fs (host.root projectRoot) absolute then
      match if write then protectedPathReason host.fs (host.root projectRoot) absolute else none with
      | some reason =>
        ⟨.ask, "filesystem-protected-ask",
          ["write to protected path '" ++ rawPath ++ "': " ++ reason]⟩
      | none =>
        ⟨.allow, "filesystem-project-allow",
          [(if write then "write" else "read") ++ " path is inside project root"]⟩
    else
      ⟨.deny, "filesystem-outside-deny",
        ["path '" ++ rawPath ++ "' is outside project root '" ++ projectRoot ++ "'"]⟩

/-- The words that are not read as paths. -/
def exemptRead (candidate : String) : Bool :=
  candidate = "" || candidate = "-" || candidate = "/dev/null" || hasPrefix "/dev/std" candidate

def classifyReadPath (name candidate : String) : List PolicyDecision :=
  if name ∉ pathReadingCommands then []
  else if exemptRead candidate then []
  else if '$' ∈ candidate.toList then
    [⟨.ask, "shell-unknown-ask", ["'" ++ name ++ "' argument '" ++ candidate ++
      "' depends on shell expansion and cannot be verified to stay inside the project"]⟩]
  else
    let inside := isInside host.fs (host.root projectRoot)
      (resolve (host.root projectRoot) candidate)
    let mayEscape := hasPrefix "~" candidate || isAbsolute candidate ||
      ".." ∈ components candidate
    if !mayEscape && inside then []
    else if !hasPrefix "~" candidate && inside then []
    else
      [⟨.deny, "filesystem-outside-deny", ["'" ++ name ++ "' would read '" ++ candidate ++
        "', which is outside project root '" ++ projectRoot ++ "'"]⟩]

/-- The redirects that name no file to check. -/
def exemptRedirect (op target : String) : Bool :=
  op = "<&" || op = "<<<" ||
    op = "<" && exemptRead target ||
    op = ">&" && target ≠ "" && target.toList.all Char.isDigit ||
    op ≠ "<" && target = "/dev/null"

def classifyRedirect (op target : String) : Option PolicyDecision :=
  if op = "<&" ∨ op = "<<<" then none
  else if op = "<" then
    if target = "" then
      some ⟨.ask, "shell-unknown-ask",
        ["input redirection with an undetermined source requires approval"]⟩
    else (host.classifyReadPath projectRoot "cat" target).head?
  else if op = ">&" ∧ target ≠ "" ∧ target.toList.all Char.isDigit then none
  else if target = "" then
    some ⟨.ask, "shell-unknown-ask",
      ["output redirection with an undetermined target requires approval"]⟩
  else if target = "/dev/null" then none
  else if '$' ∈ target.toList ∨ hasPrefix "~" target then
    some ⟨.ask, "shell-unknown-ask", ["output redirection to '" ++ target ++
      "' depends on shell expansion and cannot be verified to stay inside the project"]⟩
  else
    let absolute := resolve (host.root projectRoot) target
    if isInside host.fs (host.root projectRoot) absolute then
      (protectedPathReason host.fs (host.root projectRoot) absolute).map fun reason =>
        ⟨.ask, "filesystem-protected-ask",
          ["output redirection to protected path '" ++ target ++ "': " ++ reason]⟩
    else
      some ⟨.deny, "filesystem-outside-deny", ["output redirection to '" ++ target ++
        "' is outside project root '" ++ projectRoot ++ "'"]⟩

end Host

end Wazir.Policy
