import T560.Provider.Ledger

/-!
# The tool loop of `chatWithProvider`

The run as a machine with one control point per place where the code loops or decides
whether to ask the provider again. The surroundings fix every reply and every tool
execution in advance; the machine is deterministic over them.
-/

namespace T560.Provider

open Js (Value JsError trim)
open Transcript (Message)

def MAX_TOOL_ROUNDS : Nat := 20
def COMPACT_MODE_MAX_TOOL_ROUNDS : Nat := 8
def DEFAULT_COMPACT_HISTORY_MESSAGES : Nat := 10
def MIN_COMPACT_HISTORY_MESSAGES : Nat := 2
def MAX_COMPACT_HISTORY_MESSAGES : Nat := 20

/-- What is fixed for one run: the replies of the provider, the tool executions, the clock,
and what the code derives from the user's message, the tools and the configuration. -/
structure ChatEnv extends ToolEnv where
  reply : Nat → Except String AssistantMessage
  now : Nat → ℚ
  compactMode : Bool
  compactHistorySetting : Option String
  forceToolUse : Bool
  emailTool : Bool
  webSearchTool : Bool
  webFetchTool : Bool
  identityQuestion : Bool
  identityGroundingInstruction : String
  isIdentityAnswerGrounded : String → Bool
  looksLikeLoginIntent : Bool
  looksLikeAccountDashboardIntent : Bool
  looksLikeSiteVisitIntent : Bool
  hasLikelyLoginIntent : Bool
  hasLikelyLogoutIntent : Bool
  likelyLookup : Bool
  requestLikelyNeedsCompletionVerification : Bool
  assistantIsAskingForIdentifier : String → Bool
  resolveSavedServiceFromBrowserOutcomes : List ToolOutcome → Option String
  toolSkillReminders : String → Option String
  clampTextForModelContext : String → String
  pendingMfaAtStart : Option PendingMfa
  savedServiceFromMessage : Option String
  autoAuthIntent : Bool
  targetUrl : Option String
  extractLikelyOneTimeCodeFromEmailOutcome : String → Option String

structure RunState where
  messages : List Message
  ledger : Ledger := {}
  requestCount : Nat := 0
  autoAuthLoginSucceeded : Bool := false
  identityRetryCount : Nat := 0
  recoveryPromptSent : Bool := false
  finalizationPromptSent : Bool := false
  emptyReplyRecoveryPromptSent : Bool := false
  forceWaitForMfaCode : Bool := false
  lastAssistant : Option AssistantMessage := none
  checkoutBlockedMessage : Option String := none
  compactGuardrailMessage : Option String := none
  compactFailureStreak : Nat := 0

/-- Where the run stands: at the head of a round, inside the loop over the calls of a reply,
behind that loop, behind the rounds, before the finalization request, or at an end. -/
inductive Control where
  | round (n : Nat)
  | calls (n : Nat) (assistant : AssistantMessage) (rest : List ToolCall)
  | roundEnd (n : Nat)
  | retryLogin
  | finalization
  | done
  | thrown

structure Config where
  control : Control
  state : RunState

structure Request where
  withTools : Bool
  messages : List Message

/-- `if (text)` of a text that may be null. -/
def isPresent (text : Option String) : Bool := text.any (· ≠ "")

variable (env : ChatEnv)

def maxToolRounds : Nat :=
  if env.compactMode then COMPACT_MODE_MAX_TOOL_ROUNDS else MAX_TOOL_ROUNDS

/-- Appends a user message with the given content. -/
def RunState.pushUser (st : RunState) (content : String) : RunState :=
  { st with messages := st.messages ++ [userMessage content (env.now st.messages.length)] }

section Instructions

def buildLogoutToolForceInstruction : String :=
  "System instruction: this is a logout request for the current website session. " ++
  "Use browser tools now. " ++
  "Steps: 1) capture snapshot of the current tab, 2) locate sign out/log out/logout control, " ++
  "3) click it, 4) verify logged-out state in the resulting page. " ++
  "Then provide a concise completion message with verified outcome."

def buildCompletionVerificationInstruction : String :=
  "System instruction: do not finalize yet. " ++
  "A state-changing step needs direct post-action verification before any completion claim. " ++
  "Run verification now (for filesystem use explicit existence/list checks; for web/app use " ++
  "snapshot/readback/status evidence), then summarize only verified results."

def buildWebRecoveryInstruction : String :=
  if env.webSearchTool then
    "System recovery instruction: Browser interaction failed. For this factual lookup, retry " ++
    "using web_search (and web_fetch as needed), then answer from successful tool outputs only."
  else if env.webFetchTool then
    "System recovery instruction: Browser interaction failed. For this factual lookup, use " ++
    "browser action=search/open to locate a relevant URL, then ground the answer with " ++
    "web_fetch output only."
  else
    "System recovery instruction: Browser interaction failed. Retry with a simpler browser " ++
    "path and answer only from successful tool outputs."

def savedCredentialsInstruction (service : String) : String :=
  "System instruction: secure credentials already exist for the current site. " ++
  "Do not ask the user for email, username, or password. " ++
  "Immediately call browser action=\"login\" with service=\"" ++ service ++
  "\" on the current tab and fill identifier from vault. " ++
  "If MFA is required, ask only for the one-time code."

def emptyRecoveryInstruction : String :=
  if env.forceToolUse && env.hasLikelyLogoutIntent then buildLogoutToolForceInstruction
  else if env.forceToolUse then
    "System instruction: your previous response was empty. Execute the required tools now, " ++
    "then provide a complete user-facing answer."
  else
    "System instruction: your previous response was empty. Provide a complete, non-empty " ++
    "user-facing answer now."

def finalAnswerInstruction : String :=
  "System instruction: provide the final user-facing answer now using only verified tool " ++
  "results already produced in this session. Do not call tools. Include the best direct URL " ++
  "when available."

def toolForceInstruction : String :=
  if env.hasLikelyLogoutIntent then buildLogoutToolForceInstruction
  else
    "System instruction: this request requires real tool execution. Use tools now and only " ++
    "report verified outcomes from tool results."

def buildAutoMfaFromEmailInstruction (sourceService : String) (pending : Option PendingMfa) :
    String :=
  let tabPart := match pending.bind (·.tabId) with
    | some tabId => ", tabId=\"" ++ tabId ++ "\""
    | none => ""
  let servicePart := match pending.bind (·.service) with
    | some service => ", service=\"" ++ service ++ "\""
    | none => ""
  trim (Js.collapse (
    "System instruction: login reached MFA challenge and mailbox access is configured. " ++
    "Use email tool now with action=\"list_unread\" and service=\"" ++ sourceService ++
    "\" to fetch the latest one-time code. " ++
    "Extract the code, then immediately call browser tool action=\"mfa\" with that code " ++
    tabPart ++ servicePart ++ ". " ++
    "If no usable code is found in email, ask the user for the one-time code in one short line " ++
    "and stop."))

def reminderInstruction (tool reminder : String) : String :=
  "System instruction: tool \"" ++ tool ++ "\" was just used.\n" ++
  "Continue by following this tool-specific guidance:\n" ++ reminder

def unsubmittedLoginInstruction : String :=
  "System instruction: vault login filled the identifier but code request is not confirmed " ++
  "as submitted yet. " ++
  "Continue in browser on current tab and trigger the non-social email/code submit action. " ++
  "Do not ask for credentials; ask only for one-time code after submission is confirmed."

def automaticLoginInstruction : String :=
  "System instruction: Automatic vault-backed browser login steps have already run in runtime " ++
  "for this request. " ++
  "Continue from the current browser tab/session and do not ask the user for credentials. " ++
  "If MFA is encountered, request only the one-time code or use configured mailbox retrieval."

def guardrailMessage : String :=
  "I stopped after repeated tool failures to protect the local runtime. Tell me one narrower " ++
  "next step and I will continue."

end Instructions

def outcomeOf (tool : String) (isError : Bool) (entry : ToolOutcome) : Bool :=
  entry.isError == isError && normalizeName env.rt entry.toolName == tool

def shouldAttemptWebRecovery (toolOutcomes : List ToolOutcome) (mfaPending : Bool) : Bool :=
  !mfaPending &&
  !(env.hasLikelyLoginIntent || env.looksLikeSiteVisitIntent ||
    env.looksLikeAccountDashboardIntent) &&
  (env.webSearchTool || env.webFetchTool) && env.likelyLookup &&
  toolOutcomes.any (outcomeOf env "browser" true) &&
  !(env.webSearchTool && toolOutcomes.any (outcomeOf env "web_search" false)) &&
  !(env.webFetchTool && toolOutcomes.any (outcomeOf env "web_fetch" false))

/-- The saved service an identifier question is answered with. -/
def savedService (st : RunState) : Option String :=
  match env.savedServiceFromMessage.filter (· ≠ "") with
  | some service => some service
  | none =>
    if st.ledger.allToolCalls.isEmpty then none
    else env.resolveSavedServiceFromBrowserOutcomes st.ledger.toolOutcomes

/-- The instruction that keeps the conversation going after a reply without calls, with the
state it leaves; `none` ends the rounds. -/
def followUp (round : Nat) (text : String) (st : RunState) : Option (String × RunState) :=
  if env.identityQuestion && st.identityRetryCount < 2 && !env.isIdentityAnswerGrounded text then
    some (env.identityGroundingInstruction,
      { st with identityRetryCount := st.identityRetryCount + 1 })
  else
    let asked := (env.looksLikeLoginIntent || env.looksLikeAccountDashboardIntent ||
      env.looksLikeSiteVisitIntent) && env.assistantIsAskingForIdentifier text
    match if asked then (savedService env st).filter (· ≠ "") else none with
    | some service => some (savedCredentialsInstruction service, st)
    | none =>
      if !st.ledger.completionVerificationSatisfied &&
          !st.ledger.completionVerificationPromptSent then
        some (buildCompletionVerificationInstruction,
          { st with ledger := { st.ledger with completionVerificationPromptSent := true } })
      else if text = "" && !st.emptyReplyRecoveryPromptSent then
        some (emptyRecoveryInstruction env, { st with emptyReplyRecoveryPromptSent := true })
      else if text = "" && !st.finalizationPromptSent && !st.ledger.allToolCalls.isEmpty then
        some (finalAnswerInstruction, { st with finalizationPromptSent := true })
      else if round = 0 && env.forceToolUse then
        some (toolForceInstruction env, st)
      else if !st.recoveryPromptSent &&
          shouldAttemptWebRecovery env st.ledger.toolOutcomes st.ledger.pendingMfa.isSome then
        some (buildWebRecoveryInstruction env, { st with recoveryPromptSent := true })
      else none

/-- A round: the request, and what follows a reply without calls. -/
def roundStep (n : Nat) (st : RunState) : Config :=
  let asked := { st with requestCount := st.requestCount + 1 }
  match env.reply st.requestCount with
  | .error _ => ⟨.thrown, asked⟩
  | .ok assistant =>
    let st := { asked with
      messages := asked.messages ++ [assistant.toMessage]
      lastAssistant := some assistant }
    if assistant.toolCalls.isEmpty then
      match followUp env n assistant.flattenedText st with
      | some (instruction, st) => ⟨.round (n + 1), st.pushUser env instruction⟩
      | none => ⟨.retryLogin, st⟩
    else ⟨.calls n assistant assistant.toolCalls, st⟩

/-- What a successful browser login asks for. -/
inductive LoginFollowUp where
  | continues
  | readMailbox (sourceService : String)
  | waitForCode

def loginFollowUp (mfa : MfaState) : LoginFollowUp :=
  if mfa.requiresMfa then
    match mfa.mfaSourceCredentialAvailable, mfa.mfaSourceService, env.emailTool with
    | true, some service, true => .readMailbox service
    | _, _, _ => .waitForCode
  else .continues

/-- The outcome of a call enters the books; a browser login may then ask for a code. -/
def recordCall (call : ToolCall) (ledger : Ledger) :
    Except JsError (Ledger × LoginFollowUp) := do
  let ev := env.execution ledger.executed
  let outcome := ev.outcome
  let args := toToolArgsRecord call.arguments
  let ledger ← recordOutcome env.toToolEnv call.name args outcome
    { ledger with executed := ledger.executed + 1 }
  if normalizeName env.rt call.name = "browser" then
    let ledger ← recordPendingMfa env.toToolEnv call.arguments outcome ledger
    let ledger ← recordScreenshots env.toToolEnv ev.screenshots ledger
    if !outcome.isError && (← actionOf env.rt call.arguments) = "login" then
      let ledger ← recordLoginState env.toToolEnv outcome ledger
      let mfa ← parseBrowserMfaState env.toToolEnv outcome.content
      return (ledger, loginFollowUp env mfa)
    return (ledger, .continues)
  return (ledger, .continues)

/-- The result of a call, with the reminder of its tool. -/
def pushResult (call : ToolCall) (outcome : Outcome) (st : RunState) : RunState :=
  let answered := { st with messages := st.messages ++ [toolResultMessage call
    (env.clampTextForModelContext outcome.content) outcome.isError
    (env.now st.messages.length)] }
  match (env.toolSkillReminders (normalizeName env.rt call.name)).filter (· ≠ "") with
  | some reminder =>
    answered.pushUser env (reminderInstruction (normalizeName env.rt call.name) reminder)
  | none => answered

/-- The streak of failures in compact mode behind an outcome. -/
def failureStreak (outcome : Outcome) (st : RunState) : Nat :=
  if env.compactMode then (if outcome.isError then st.compactFailureStreak + 1 else 0)
  else st.compactFailureStreak

/-- The loop over the calls ends behind this outcome. -/
def stopsCalls (outcome : Outcome) (st : RunState) : Bool :=
  (env.compactMode && 3 ≤ failureStreak env outcome st) || isPresent st.checkoutBlockedMessage

/-- The call gets its result; the loop stops behind three failures in a row in compact mode
and behind a blocked checkout. -/
def answerCall (n : Nat) (assistant : AssistantMessage) (call : ToolCall) (rest : List ToolCall)
    (outcome : Outcome) (st : RunState) : Config :=
  let answered := { pushResult env call outcome st with
    compactFailureStreak := failureStreak env outcome st }
  if env.compactMode && 3 ≤ failureStreak env outcome st then
    ⟨.roundEnd n, { answered with compactGuardrailMessage := some guardrailMessage }⟩
  else if isPresent answered.checkoutBlockedMessage then ⟨.roundEnd n, answered⟩
  else ⟨.calls n assistant rest, answered⟩

/-- A blocked checkout leaves its message before the outcome is looked at. -/
def noteBlocked (ev : Execution) (st : RunState) : RunState :=
  { st with checkoutBlockedMessage := ev.blocked.or st.checkoutBlockedMessage }

def callStep (n : Nat) (assistant : AssistantMessage) (call : ToolCall) (rest : List ToolCall)
    (st : RunState) : Config :=
  let ev := env.execution st.ledger.executed
  match recordCall env call st.ledger with
  | .error _ => ⟨.thrown, st⟩
  | .ok (ledger, next) =>
    let st := { noteBlocked ev st with ledger := ledger }
    match next with
    | .readMailbox service =>
      ⟨.roundEnd n, st.pushUser env (buildAutoMfaFromEmailInstruction service ledger.pendingMfa)⟩
    | .waitForCode => ⟨.roundEnd n, { st with forceWaitForMfaCode := true }⟩
    | .continues => answerCall env n assistant call rest ev.outcome st

/-- The second login attempt behind the rounds. -/
def retryLogin (st : RunState) : Except JsError RunState := do
  let pendingSubmit := st.ledger.latestBrowserLoginState.any fun s => s.mfaExpected && !s.submitted
  if !st.forceWaitForMfaCode && st.autoAuthLoginSucceeded && pendingSubmit then
    match ((env.savedServiceFromMessage.filter (· ≠ "")).or
        (env.resolveSavedServiceFromBrowserOutcomes st.ledger.toolOutcomes)).filter (· ≠ "") with
    | none => return st
    | some service =>
      let (ledger, outcome) ← runSyntheticToolCall env.toToolEnv "browser"
        (.obj [("action", .str "login"), ("service", .str service), ("engine", .str "live"),
          ("allowEngineFallback", .bool true)]) st.ledger
      if outcome.isError then return { st with ledger := ledger }
      let ledger ← recordLoginState env.toToolEnv outcome ledger
      let mfa ← parseBrowserMfaState env.toToolEnv outcome.content
      return { st with
        ledger := ledger
        forceWaitForMfaCode := st.forceWaitForMfaCode ||
          (mfa.requiresMfa && ledger.pendingMfa.isSome) }
  else return st

/-- The finalization request is made: tools ran, and the last reply has no text. -/
def needsFinalAnswer (st : RunState) : Bool :=
  !st.forceWaitForMfaCode && !st.ledger.allToolCalls.isEmpty &&
    st.lastAssistant.any (·.flattenedText = "")

def finalizationStep (st : RunState) : Config :=
  if st.lastAssistant.isNone && !st.forceWaitForMfaCode then ⟨.thrown, st⟩
  else if needsFinalAnswer st then
    let st := st.pushUser env finalAnswerInstruction
    let asked := { st with requestCount := st.requestCount + 1 }
    match env.reply st.requestCount with
    | .error _ => ⟨.done, asked⟩
    | .ok assistant => ⟨.done, { asked with
        messages := asked.messages ++ [assistant.toMessage]
        lastAssistant := some assistant }⟩
  else ⟨.done, st⟩

def entersRound (n : Nat) (st : RunState) : Bool :=
  n < maxToolRounds env && !st.forceWaitForMfaCode

def leavesRounds (st : RunState) : Bool :=
  st.forceWaitForMfaCode || isPresent st.checkoutBlockedMessage ||
    isPresent st.compactGuardrailMessage

def step (c : Config) : Config :=
  match c.control with
  | .round n => if entersRound env n c.state then roundStep env n c.state else ⟨.retryLogin, c.state⟩
  | .calls n _ [] => ⟨.roundEnd n, c.state⟩
  | .calls n assistant (call :: rest) => callStep env n assistant call rest c.state
  | .roundEnd n => if leavesRounds c.state then ⟨.retryLogin, c.state⟩ else ⟨.round (n + 1), c.state⟩
  | .retryLogin =>
    match retryLogin env c.state with
    | .ok st => ⟨.finalization, st⟩
    | .error _ => ⟨.thrown, c.state⟩
  | .finalization => finalizationStep env c.state
  | .done | .thrown => c

/-- The provider request the next step makes. -/
def requestOf (c : Config) : Option Request :=
  match c.control with
  | .round n =>
    if entersRound env n c.state then
      some ⟨!c.state.finalizationPromptSent, c.state.messages⟩
    else none
  | .finalization =>
    if needsFinalAnswer c.state then
      some ⟨false, (c.state.pushUser env finalAnswerInstruction).messages⟩
    else none
  | _ => none

def resolveCompactHistoryMessages : Nat :=
  match env.rt.textNumber (env.compactHistorySetting.getD "") with
  | .fin raw =>
    if 0 < raw then
      min MAX_COMPACT_HISTORY_MESSAGES (max MIN_COMPACT_HISTORY_MESSAGES ⌊raw⌋.toNat)
    else DEFAULT_COMPACT_HISTORY_MESSAGES
  | _ => DEFAULT_COMPACT_HISTORY_MESSAGES

/-- The part of the stored history a run works with. -/
def historyForRun (history : List Message) : List Message :=
  if env.compactMode then history.drop (history.length - resolveCompactHistoryMessages env)
  else history

def browserLive (action : String) (fields : List (String × Value)) : Value :=
  .obj ([("action", .str action)] ++ fields ++
    [("engine", .str "live"), ("allowEngineFallback", .bool true)])

/-- The mailbox is read until a code turns up. -/
def codeFromMailbox (service : String) :
    List String → Ledger → Except JsError (Ledger × Option String)
  | [], ledger => return (ledger, none)
  | action :: rest, ledger => do
    let (ledger, outcome) ← runSyntheticToolCall env.toToolEnv "email"
      (.obj [("action", .str action), ("service", .str service), ("limit", .num (.fin 8)),
        ("includeBody", .bool true), ("markSeen", .bool false)]) ledger
    if outcome.isError then codeFromMailbox service rest ledger
    else
      match (env.extractLikelyOneTimeCodeFromEmailOutcome outcome.content).filter (· ≠ "") with
      | some code => return (ledger, some code)
      | none => codeFromMailbox service rest ledger

/-- The code for an automatic login that reached MFA; the run waits when none was entered. -/
def resolveAutoMfa (mfa : MfaState) (ledger : Ledger) : Except JsError (Ledger × Bool) := do
  let pendingAfterLogin := ledger.pendingMfa
  let (ledger, code) ← match loginFollowUp env mfa with
    | .readMailbox service => codeFromMailbox env service ["list_unread", "read_recent"] ledger
    | _ => pure (ledger, none)
  match code with
  | none => return (ledger, ledger.pendingMfa.isSome)
  | some code =>
    let field := fun key value => match Option.filter (· ≠ "") value with
      | some text => [(key, Value.str text)]
      | none => []
    let (ledger, _) ← runSyntheticToolCall env.toToolEnv "browser"
      (browserLive "mfa" (("code", .str code) :: (field "tabId" (pendingAfterLogin.bind (·.tabId)) ++
        field "service" (pendingAfterLogin.bind (·.service))))) ledger
    return (ledger, ledger.pendingMfa.isSome)

/-- The automatic vault login before the rounds: the books, whether the login succeeded, and
whether the run has to wait for a code. -/
def autoLogin (ledger : Ledger) : Except JsError (Ledger × Bool × Bool) := do
  match env.savedServiceFromMessage.filter (· ≠ "") with
  | none => return (ledger, false, false)
  | some service =>
    if env.pendingMfaAtStart.isSome || !env.autoAuthIntent then return (ledger, false, false)
    let ledger ← match env.targetUrl.filter (· ≠ "") with
      | some url => do
        let (ledger, _) ← runSyntheticToolCall env.toToolEnv "browser"
          (browserLive "open" [("url", .str url)]) ledger
        pure ledger
      | none => pure ledger
    let (ledger, outcome) ← runSyntheticToolCall env.toToolEnv "browser"
      (browserLive "login" [("service", .str service)]) ledger
    if outcome.isError then return (ledger, false, false)
    let ledger ← recordLoginState env.toToolEnv outcome ledger
    let mfa ← parseBrowserMfaState env.toToolEnv outcome.content
    if !mfa.requiresMfa then return (ledger, true, false)
    let (ledger, waits) ← resolveAutoMfa env mfa ledger
    return (ledger, true, waits)

def initialLedger : Ledger :=
  { completionVerificationNeeded := env.requestLikelyNeedsCompletionVerification
    completionVerificationSatisfied := !env.requestLikelyNeedsCompletionVerification
    pendingMfa := env.pendingMfaAtStart }

/-- The run at the head of its first round. -/
def start (history : List Message) (content : String) : Config :=
  let base : RunState := { messages := historyForRun env history }
  let st := base.pushUser env content
  match autoLogin env (initialLedger env) with
  | .error _ => ⟨.thrown, st⟩
  | .ok (ledger, succeeded, waits) =>
    let st := { st with
      ledger := ledger
      autoAuthLoginSucceeded := succeeded
      forceWaitForMfaCode := waits }
    let st := if succeeded &&
        ledger.latestBrowserLoginState.any (fun s => !s.submitted && s.mfaExpected) then
        st.pushUser env unsubmittedLoginInstruction
      else st
    let st := if succeeded && !waits then st.pushUser env automaticLoginInstruction else st
    ⟨.round 0, st⟩

end T560.Provider
