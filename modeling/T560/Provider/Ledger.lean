import T560.Provider.Reply

/-!
# What tool executions record

The part of `chatWithProvider`'s state that tool executions write: outcomes, the completion
verification flags, the pending MFA session and the last browser login. None of these
functions touches the message list.
-/

namespace T560.Provider

open Js (Value Runtime JsError trim)
open Js.Value (coalesce trimmedText)

structure Outcome where
  isError : Bool
  content : String

structure ToolOutcome where
  toolName : String
  isError : Bool
  content : String

structure LoginState where
  submitted : Bool
  requiresMfa : Bool
  mfaExpected : Bool
  identifier : Option String

structure MfaState where
  requiresMfa : Bool
  mfaSourceService : Option String
  mfaSourceCredentialAvailable : Bool

structure PendingMfa where
  service : Option String
  mfaSourceService : Option String
  tabId : Option String

/-- What the surroundings decide about one tool execution: the message of a checkout decision
that blocks it, the outcome or the text of the exception, and the outcomes of the captcha
screenshots the run takes behind it. -/
structure Execution where
  blocked : Option String := none
  result : Except String Outcome
  screenshots : List Outcome := []

/-- One execution as `registerCompletionVerificationSignal` sees it. -/
structure Signal where
  toolName : String
  args : Value
  isError : Bool

/-- The books of a run. `signals` lists every execution in order; no function reads it, it is
there to speak about what has happened. -/
structure Ledger where
  executed : Nat := 0
  allToolCalls : List String := []
  toolOutcomes : List ToolOutcome := []
  completionVerificationNeeded : Bool := false
  completionVerificationSatisfied : Bool := true
  completionVerificationPromptSent : Bool := false
  pendingMfa : Option PendingMfa := none
  latestBrowserLoginState : Option LoginState := none
  signals : List Signal := []

/-- The runtime as tool outcomes see it, with the two command patterns of `exec`. -/
structure ToolEnv where
  rt : Runtime
  parse : String → Option Value
  execution : Nat → Execution
  looksLikeStateMutationCommand : String → Bool
  looksLikeStateVerificationCommand : String → Bool

variable (env : ToolEnv)

def orNull (s : String) : Option String := if s = "" then none else some s

def isTrueValue (v : Option Value) : Bool := v == some (.bool true)

/-- `String(name ?? "").trim().toLowerCase()`. -/
def normalizeName (rt : Runtime) (name : String) : String := rt.toLowerCase (trim name)

/-- `String(args.action ?? "").trim().toLowerCase()`. -/
def actionOf (rt : Runtime) (args : Value) : Except JsError String := do
  return rt.toLowerCase (← trimmedText rt [args.get? "action"])

def toToolArgsRecord (args : Value) : Value := if args.isRecord then args else .obj []

def parseJsonRecord (content : String) : Option Value :=
  (env.parse content).filter Value.isRecord

def getNestedRecord (source : Value) (key : String) : Option Value :=
  (source.get? key).filter Value.isRecord

def nested (record : Option Value) (key : String) : Option Value := record.bind (·.get? key)

def requiresMfaFlag (parsed : Value) (mfaRecord : Option Value) : Bool :=
  isTrueValue (parsed.get? "requiresMfa") || isTrueValue (nested mfaRecord "required") ||
    isTrueValue (nested mfaRecord "requiresMfa")

def parseBrowserMfaState (content : String) : Except JsError MfaState := do
  match parseJsonRecord env content with
  | none => return ⟨false, none, false⟩
  | some parsed =>
    let mfaRecord := getNestedRecord parsed "mfa"
    let sourceService ← trimmedText env.rt
      [parsed.get? "mfaSourceService", nested mfaRecord "sourceService"]
    return {
      requiresMfa := requiresMfaFlag parsed mfaRecord
      mfaSourceService := orNull sourceService
      mfaSourceCredentialAvailable := isTrueValue (parsed.get? "mfaSourceCredentialAvailable") ||
        isTrueValue (nested mfaRecord "sourceCredentialAvailable") }

def parseBrowserLoginState (content : String) : Except JsError (Option LoginState) := do
  match parseJsonRecord env content with
  | none => return none
  | some parsed =>
    let mfaRecord := getNestedRecord parsed "mfa"
    let hasLoginShape := (parsed.get? "submitted").isSome || (parsed.get? "requiresMfa").isSome ||
      (parsed.get? "mfaExpected").isSome || (parsed.get? "identifier").isSome || mfaRecord.isSome
    if !hasLoginShape then return none
    let identifier ← trimmedText env.rt
      [parsed.get? "identifierFull", parsed.get? "identifier", parsed.get? "identifierMasked"]
    return some {
      submitted := isTrueValue (parsed.get? "submitted")
      requiresMfa := requiresMfaFlag parsed mfaRecord
      mfaExpected := isTrueValue (parsed.get? "mfaExpected") || isTrueValue (nested mfaRecord "expected")
      identifier := orNull identifier }

def updatePendingMfaStateFromBrowserTool (args : Value) (outcome : Outcome)
    (pending : Option PendingMfa) : Except JsError (Option PendingMfa) := do
  let action ← actionOf env.rt args
  if action = "mfa" && !outcome.isError then return none
  if outcome.isError then return pending
  match parseJsonRecord env outcome.content with
  | none => return pending
  | some parsed =>
    let mfaRecord := getNestedRecord parsed "mfa"
    let mfaSubmitted := isTrueValue (parsed.get? "mfaSubmitted") ||
      isTrueValue (nested mfaRecord "submitted") || isTrueValue (nested mfaRecord "handled")
    if mfaSubmitted then return none
    if !requiresMfaFlag parsed mfaRecord then
      return if action = "login" then none else pending
    let tabRecord := getNestedRecord parsed "tab"
    let activeTabId ← trimmedText env.rt [parsed.get? "activeTabId", nested tabRecord "id"]
    let service ← trimmedText env.rt [parsed.get? "service"]
    let mfaSourceService ← trimmedText env.rt
      [parsed.get? "mfaSourceService", nested mfaRecord "sourceService"]
    return some ⟨orNull service, orNull mfaSourceService, orNull activeTabId⟩

/-- `String(args.command ?? args.cmd ?? "")`. -/
def commandOf (args : Value) : Except JsError String :=
  Value.textOrEmpty env.rt (coalesce [args.get? "command", args.get? "cmd"])

def toolCallMutatesState (tool : String) (args : Value) : Except JsError Bool := do
  if ["write", "edit", "memory_save", "memory_delete", "memory_prune", "memory_feedback",
      "memory_compact"].contains tool then
    return true
  if tool = "email" then
    return (← actionOf env.rt args) = "send"
  if tool = "browser" then
    return ["submit", "login", "mfa", "upload", "dialog", "challenge"].contains
      (← actionOf env.rt args)
  if tool = "exec" then
    return env.looksLikeStateMutationCommand (← commandOf env args)
  return false

def toolCallVerifiesState (tool : String) (args : Value) : Except JsError Bool := do
  if ["read", "ls", "find", "exists", "web_search", "web_fetch", "memory_search", "memory_get",
      "memory_save", "memory_delete", "memory_prune", "memory_feedback", "memory_compact",
      "memory_list", "memory_stats"].contains tool then
    return true
  if tool = "email" then
    return ["status", "list_unread", "read_unread", "read_recent", "send"].contains
      (← actionOf env.rt args)
  if tool = "browser" then
    return ["snapshot", "wait", "wait_for_request", "downloads", "console", "pdf"].contains
      (← actionOf env.rt args)
  if tool = "exec" then
    return env.looksLikeStateVerificationCommand (← commandOf env args)
  return false

def registerCompletionVerificationSignal (toolName : String) (args : Value) (isError : Bool)
    (ledger : Ledger) : Except JsError Ledger := do
  let tool := normalizeName env.rt toolName
  if isError || tool = "" then return ledger
  let ledger := if ← toolCallMutatesState env tool args then
      { ledger with
        completionVerificationNeeded := true
        completionVerificationSatisfied := false
        completionVerificationPromptSent := false }
    else ledger
  if ledger.completionVerificationNeeded then
    if ← toolCallVerifiesState env tool args then
      return { ledger with completionVerificationSatisfied := true }
  return ledger

/-- The outcome the code works with: a blocked call and an exception are errors. -/
def Execution.outcome (ev : Execution) : Outcome :=
  match ev.blocked with
  | some message => ⟨true, message⟩
  | none =>
    match ev.result with
    | .ok outcome => outcome
    | .error message => ⟨true, message⟩

/-- One execution enters the books. -/
def recordOutcome (toolName : String) (args : Value) (outcome : Outcome) (ledger : Ledger) :
    Except JsError Ledger :=
  registerCompletionVerificationSignal env toolName args outcome.isError
    { ledger with
      allToolCalls := ledger.allToolCalls ++ [toolName]
      toolOutcomes := ledger.toolOutcomes ++ [⟨toolName, outcome.isError, outcome.content⟩]
      signals := ledger.signals ++ [⟨toolName, args, outcome.isError⟩] }

def recordPendingMfa (args : Value) (outcome : Outcome) (ledger : Ledger) :
    Except JsError Ledger := do
  let pending ← updatePendingMfaStateFromBrowserTool env args outcome ledger.pendingMfa
  return { ledger with pendingMfa := pending }

def screenshotArgs : Value := .obj [("action", .str "screenshot")]

/-- The synthetic screenshot calls of `maybeCaptureCaptchaScreenshotForTelegram`. -/
def recordScreenshots : List Outcome → Ledger → Except JsError Ledger
  | [], ledger => return ledger
  | outcome :: rest, ledger => do
    let ledger ← recordOutcome env "browser" screenshotArgs outcome ledger
    let ledger ← recordPendingMfa env screenshotArgs outcome ledger
    recordScreenshots rest ledger

def recordLoginState (outcome : Outcome) (ledger : Ledger) : Except JsError Ledger := do
  match ← parseBrowserLoginState env outcome.content with
  | some login => return { ledger with latestBrowserLoginState := some login }
  | none => return ledger

/-- A call the runtime makes by itself; checkout decisions do not apply to it. -/
def runSyntheticToolCall (toolName : String) (args : Value) (ledger : Ledger) :
    Except JsError (Ledger × Outcome) := do
  let ev := env.execution ledger.executed
  let outcome := Execution.outcome { ev with blocked := none }
  let ledger ← recordOutcome env toolName args outcome
    { ledger with executed := ledger.executed + 1 }
  if normalizeName env.rt toolName = "browser" then
    let ledger ← recordPendingMfa env args outcome ledger
    let ledger ← recordScreenshots env ev.screenshots ledger
    if !outcome.isError && (← actionOf env.rt args) = "login" then
      let ledger ← recordLoginState env outcome ledger
      return (ledger, outcome)
    return (ledger, outcome)
  return (ledger, outcome)

end T560.Provider
