import T560.Foundation.Pattern
import T560.Guard.Shell
import T560.Js.Path
import T560.Js.Value

/-!
# The self-protection policy

What the exec tool refuses to run: commands that delete or move a protected path, destructive git
commands above one, and power control. A refusal is the error that is thrown, as its message.
-/

namespace T560.Guard

open Foundation (Pattern)
open Js (Runtime trim startsWith includes Path.isAbsolute Path.resolve Path.relative Path.join Path.basename)

/-- The runtime, the home directory and the working directory of the process. -/
structure GuardEnv where
  rt : Runtime
  homedir : String
  processCwd : String

structure ProtectedPathEntry where
  raw : String
  absolute : String
  deriving DecidableEq, Repr

structure SelfProtectionPolicy where
  enabled : Bool
  installRoot : String
  protectedPaths : List ProtectedPathEntry
  deriving DecidableEq, Repr

structure TokenPath where
  raw : String
  absolute : String
  wildcard : Bool
  deriving DecidableEq, Repr

variable (env : GuardEnv)

section Paths

def isPathInside (root target : String) : Bool :=
  let relative := Path.relative env.processCwd (Path.resolve env.processCwd [root])
    (Path.resolve env.processCwd [target])
  relative = "" || (!startsWith ".." relative && !Path.isAbsolute relative)

def expandHome (raw : String) : String :=
  let trimmed := trim raw
  if trimmed = "~" then env.homedir
  else if startsWith "~/" trimmed then
    Path.join [env.homedir, String.ofList (trimmed.toList.drop 2)]
  else trimmed

def resolvePathFromBase (raw baseDir : String) : String :=
  let expanded := expandHome env raw
  if Path.isAbsolute expanded then Path.resolve env.processCwd [expanded]
  else Path.resolve env.processCwd [baseDir, expanded]

def containsWildcard (raw : String) : Bool :=
  raw.toList.any fun c => c ∈ ['*', '?', '[', ']', '\x7b', '\x7d']

def resolveTokenPath (raw cwd : String) : Option TokenPath :=
  let token := trim raw
  if token = "" || startsWith "-" token then none
  else if includes token "$(" || includes token "$\x7b" || includes token "`" then none
  else some ⟨token, resolvePathFromBase env token cwd, containsWildcard token⟩

def formatProtectedPath (entry : ProtectedPathEntry) (installRoot : String) : String :=
  let relative := Path.relative env.processCwd installRoot entry.absolute
  if relative = "" || relative = "." then entry.absolute
  else entry.absolute ++ " (" ++ relative ++ ")"

end Paths

section Tokens

def isNameStart (c : Char) : Bool := Foundation.isWordChar c && !c.isDigit

/-- `/^[A-Za-z_][A-Za-z0-9_]*=.*/`. -/
def isEnvAssignmentToken (token : String) : Bool :=
  match token.toList with
  | [] => false
  | c :: rest => isNameStart c && (rest.dropWhile Foundation.isWordChar).head? == some '='

/-- How many tokens from the given place on pass the test. -/
def skipWhile (test : String → Bool) (tokens : List String) (idx : Nat) : Nat :=
  idx + ((tokens.drop idx).takeWhile test).length

def findCommandTokenIndex (tokens : List String) : Option Nat :=
  let idx := skipWhile isEnvAssignmentToken tokens 0
  match tokens[idx]? with
  | none => none
  | some first =>
    let idx := if first = "env" then
        skipWhile (fun t => startsWith "-" t || isEnvAssignmentToken t) tokens (idx + 1)
      else idx
    match tokens[idx]? with
    | none => none
    | some second =>
      let idx := if second = "sudo" then
          skipWhile isEnvAssignmentToken tokens (skipWhile (startsWith "-") tokens (idx + 1))
        else idx
      if idx < tokens.length then some idx else none

/-- The operands behind the command: the tokens that are no flags, and all tokens behind `--`. -/
def operands : Bool → List String → List String
  | _, [] => []
  | passthrough, token :: rest =>
    if !passthrough && token = "--" then operands true rest
    else if !passthrough && startsWith "-" token then operands passthrough rest
    else token :: operands passthrough rest

def parseDeleteTargets (tokens : List String) (commandIndex : Nat) (cwd : String) :
    List TokenPath :=
  let out := (operands false (tokens.drop (commandIndex + 1))).filterMap
    (resolveTokenPath env · cwd)
  if out = [] then [⟨".", Path.resolve env.processCwd [cwd], false⟩] else out

def parseMoveSources (tokens : List String) (commandIndex : Nat) (cwd : String) :
    List TokenPath :=
  let positional := operands false (tokens.drop (commandIndex + 1))
  if positional.length ≤ 1 then []
  else positional.dropLast.filterMap (resolveTokenPath env · cwd)

/-- A short flag is one letter behind a dash, and may stand among others. -/
def hasFlag (tokens : List String) (longFlag : String) (shortFlag : Option String) : Bool :=
  tokens.any fun token =>
    if token = longFlag || (shortFlag.getD "" ≠ "" && some token = shortFlag) then true
    else
      let short := shortFlag.getD ""
      if short = "" || !startsWith "-" short || short.length ≠ 2 then false
      else if !startsWith "-" token || startsWith "--" token then false
      else includes token (String.ofList (short.toList.drop 1))

end Tokens

section Checks

variable (cwd : String) (policy : SelfProtectionPolicy)

def blockedDelete (command : String) (target : TokenPath) (entry : ProtectedPathEntry) : String :=
  " ".intercalate ["Blocked destructive command by self-protection policy.",
    "Command: " ++ command, "Target: " ++ target.raw,
    "Protected path: " ++ formatProtectedPath env entry policy.installRoot]

def covers (target : TokenPath) (entry : ProtectedPathEntry) : Bool :=
  isPathInside env target.absolute entry.absolute ||
    (target.wildcard && (isPathInside env target.absolute entry.absolute ||
      isPathInside env entry.absolute target.absolute))

def blockIfTargetCoversProtected (command : String) (targets : List TokenPath) :
    Except String Unit :=
  targets.forM fun target => policy.protectedPaths.forM fun entry =>
    if covers env target entry then .error (blockedDelete env policy command target entry)
    else .ok ()

/-- Refused where the working directory covers a protected path. -/
def blockIfCwdCoversProtected (operation : String) : Except String Unit :=
  policy.protectedPaths.forM fun entry =>
    if isPathInside env (Path.resolve env.processCwd [cwd]) entry.absolute then
      .error ("Blocked destructive git " ++ operation ++ " in protected directory: " ++
        formatProtectedPath env entry policy.installRoot)
    else .ok ()

def assertGitCommandAllowed (tokens : List String) (commandIndex : Nat) : Except String Unit := do
  let sub := env.rt.toLowerCase (tokens.getD (commandIndex + 1) "")
  if sub = "reset" ∧ hasFlag tokens "--hard" none then
    blockIfCwdCoversProtected env cwd policy "reset"
  if sub = "clean" ∧ hasFlag tokens "--force" (some "-f") then
    blockIfCwdCoversProtected env cwd policy "clean"

def powerControlBlocked : String :=
  "Command blocked by safety policy. Power-control commands (shutdown/reboot/poweroff/halt) are " ++
    "not allowed via exec tool."

def isPowerControl (commandName nextToken joinedLower : String) : Bool :=
  commandName ∈ ["shutdown", "reboot", "poweroff", "halt"] ||
  (commandName ∈ ["init", "telinit"] && nextToken ∈ ["0", "6"]) ||
  (commandName ∈ ["systemctl", "loginctl"] &&
    nextToken ∈ ["poweroff", "reboot", "halt", "suspend", "hibernate", "kexec"]) ||
  (commandName ∈ ["cmd", "cmd.exe"] && (Pattern.word ["shutdown"]).test joinedLower) ||
  (commandName ∈ ["powershell", "pwsh"] &&
    ((Pattern.word ["stop-computer"]).test joinedLower ||
      (Pattern.word ["restart-computer"]).test joinedLower ||
      (Pattern.word ["shutdown"]).test joinedLower))

/-- The scripts that a shell is given inline, in the order they are met. -/
def inlineScripts (arguments : List String) : List String :=
  (arguments.zip arguments.tail).filterMap fun (token, script) =>
    if (token = "-c" || token = "-lc") && trim script ≠ "" then some script else none

def deleteCommands : List String := ["rm", "rmdir", "unlink", "shred", "wipefs", "mkfs"]

/-- The rest of `assertSegmentAllowed`, on paths. -/
def assertPathsAllowed (segment commandName : String) (tokens : List String)
    (commandIndex : Nat) : Except String Unit :=
  if commandName = "git" then assertGitCommandAllowed env cwd policy tokens commandIndex
  else if commandName = "find" && tokens.any (fun t => env.rt.toLowerCase t = "-delete") then
    let next := tokens.getD (commandIndex + 1) ""
    let rootToken := if next ≠ "" && !startsWith "-" next then next else "."
    blockIfTargetCoversProtected env policy segment (resolveTokenPath env rootToken cwd).toList
  else if commandName = "mv" then
    blockIfTargetCoversProtected env policy segment (parseMoveSources env tokens commandIndex cwd)
  else if commandName ∈ deleteCommands then
    blockIfTargetCoversProtected env policy segment (parseDeleteTargets env tokens commandIndex cwd)
  else .ok ()

/-- `assertSegmentAllowed`, where `inline` checks a script that a shell is given. -/
def assertSegmentAllowed (inline : String → Except String Unit) (segment : List Char) :
    Except String Unit :=
  let tokens := tokenizeShell segment
  match findCommandTokenIndex tokens with
  | none => .ok ()
  | some commandIndex => do
    let commandName := env.rt.toLowerCase (Path.basename (tokens.getD commandIndex ""))
    let arguments := tokens.drop (commandIndex + 1)
    let nextToken := env.rt.toLowerCase (arguments.headD "")
    let joinedLower := env.rt.toLowerCase (" ".intercalate arguments)
    if isPowerControl commandName nextToken joinedLower then .error powerControlBlocked
    if commandName ∈ ["bash", "sh", "zsh"] then (inlineScripts arguments).forM inline
    assertPathsAllowed env cwd policy (String.ofList segment) commandName tokens commandIndex

/-- The guard down to the given depth of scripts inside scripts. -/
def assertExecFuel : Nat → String → Except String Unit
  | 0, _ => .ok ()
  | fuel + 1, command =>
    if policy.enabled then
      (splitShellSegments command.toList).forM
        (assertSegmentAllowed env cwd policy (assertExecFuel fuel))
    else .ok ()

/-- A script inside a command is shorter than it, so this depth is enough. -/
def assertExecCommandAllowed (command : String) : Except String Unit :=
  assertExecFuel env cwd policy (command.toList.length + 1) command

end Checks

end T560.Guard
