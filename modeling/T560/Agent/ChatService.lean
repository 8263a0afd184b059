import T560.Config.Onboarding
import T560.Format.Markdown
import T560.Foundation.InsertionMap
import T560.Foundation.Pattern
import T560.Foundation.Program
import T560.Setup.Providers

/-!
# The chat service

A message is first offered to the setup flow. If it is not for the flow it is routed to a slot by
what it asks for, and sent to the provider of that slot; when the provider fails it may be sent to
the provider of another slot, or the provider may be asked to go on with the session.
-/

namespace T560.Agent

open Config (T560Config OnboardingStatus RoutingTarget Slot resolveRoutingTarget)
open Foundation (Pattern isWordChar)
open Js (Runtime trim)
open Program (Prog perform attempt)
open Setup (routeText)

inductive ChatMode where
  | foundation
  | provider
  deriving DecidableEq, Repr

/-- The role is always `assistant`. -/
structure ChatResponse extends Format.ChatResponse where
  toolCalls : List String
  mode : ChatMode
  provider : Option String
  model : Option String
  onboardingRequired : Bool
  missing : List String
  deriving DecidableEq, Repr

structure GatewayInboundMessage where
  channel : String
  message : String
  sessionId : String
  externalUserId : String
  deriving DecidableEq, Repr

section RouteIntent

structure RouteSignal where
  label : String
  pattern : Pattern
  weight : Nat
  strong : Bool := false

structure RouteIntentAnalysis where
  slot : Slot
  planningScore : Nat
  codingScore : Nat
  planningSignals : List String
  codingSignals : List String

/-- `.{0,n}` -/
def gap (n : Nat) : Pattern :=
  .run (fun c => !(["\n", "\r", "\u2028", "\u2029"].contains (String.singleton c))) (some n)

def dashOrSpace : Pattern := .opt (.char fun c => c == '-' || Js.isSpace c)

/-- `\b(…)\b` -/
def bounded (choices : List Pattern) : Pattern :=
  .concat [.boundary, .oneOf choices, .boundary]

def plural (word : String) : Pattern := .seq (.literal word) (.opt (.literal "s"))

def PLANNING_SIGNALS : List RouteSignal :=
  [{ label := "architecture", weight := 3, strong := true
     pattern := .word
       ["architecture", "design doc", "technical design", "system design", "design proposal"] },
   { label := "roadmap", weight := 3, strong := true
     pattern := .word ["roadmap", "migration plan", "rollout plan", "implementation plan"] },
   { label := "planning", weight := 2
     pattern := .concat [.word ["plan", "strategy"], gap 40,
       .word ["feature", "project", "migration", "rollout", "approach", "implementation", "build"]] },
   { label := "options", weight := 2
     pattern := bounded [.literal "compare",
       .concat [.literal "trade", dashOrSpace, plural "off"],
       .literal "pros and cons", .literal "evaluate options", .literal "decision matrix"] },
   { label := "step-plan", weight := 2
     pattern := .concat [.boundary, .literal "step", dashOrSpace, .literal "by", dashOrSpace,
       .literal "step plan", .boundary] },
   { label := "task-list", weight := 3, strong := true
     pattern := bounded [.literal "list of tasks", .literal "task list", .literal "task breakdown",
       .literal "todo list", .literal "checklist", plural "milestone"] },
   { label := "plan-request", weight := 3, strong := true
     pattern := .concat [.word ["plan", "planning"], gap 40,
       bounded [.literal "first", .literal "before coding", .literal "before implementation",
         plural "next step"]] }]

def CODING_SIGNALS : List RouteSignal :=
  [{ label := "fenced-code", weight := 3, strong := true, pattern := .literal "```" },
   { label := "repo-path", weight := 3, strong := true
     pattern := .word ["src/", "package.json", "tsconfig.json", "dockerfile", "makefile",
       "requirements.txt", "pom.xml"] },
   { label := "code-file", weight := 3, strong := true
     pattern := .concat [.boundary, .char isWordChar, .run isWordChar none, .literal ".",
       .oneOf (["ts", "tsx", "js", "jsx", "py", "go", "rs", "java", "c", "cpp", "cs", "rb", "php",
         "swift", "kt"].map .literal), .boundary] },
   { label := "coding-action", weight := 2
     pattern := .concat [.word ["write", "implement", "refactor", "debug", "fix", "patch", "add",
         "update", "remove"], gap 70,
       .word ["code", "function", "class", "module", "script", "test", "bug", "error", "compile",
         "build"]] },
   { label := "script-request", weight := 2
     pattern := .concat [.word ["write", "create", "build"], gap 35,
       .word ["script", "program", "automation"]] },
   { label := "test-debug", weight := 2
     pattern := .word ["unit test", "integration test", "test case", "failing test", "stack trace",
       "compile error", "type error", "eslint", "tsc", "pytest"] },
   { label := "review", weight := 2, pattern := .word ["code review", "pr review", "pull request"] }]

def explicitListPattern : Pattern :=
  bounded [.literal "list of tasks", .literal "task list", .literal "task breakdown",
    .literal "todo list", .literal "checklist", .literal "roadmap", .literal "implementation plan",
    plural "next step"]

def explicitVerbPattern : Pattern :=
  .word ["plan", "planning", "create", "draft", "build", "make", "come up with", "outline"]

def found (signals : List RouteSignal) (text : String) : List RouteSignal :=
  signals.filter fun signal => signal.pattern.test text

def analyzeRouteIntent (rt : Runtime) (message : String) : RouteIntentAnalysis :=
  let text := rt.toLowerCase message
  if trim text = "" then ⟨.default, 0, 0, [], []⟩
  else
    let planning := found PLANNING_SIGNALS text
    let coding := found CODING_SIGNALS text
    let planningScore := (planning.map (·.weight)).sum
    let codingScore := (coding.map (·.weight)).sum
    let planningSignals := planning.map (·.label)
    let codingSignals := coding.map (·.label)
    let planningStrong := planning.any (·.strong)
    let codingStrong := coding.any (·.strong)
    let chosen (slot : Slot) : RouteIntentAnalysis :=
      ⟨slot, planningScore, codingScore, planningSignals, codingSignals⟩
    if explicitListPattern.test text && explicitVerbPattern.test text then
      ⟨.planning, max planningScore 3, codingScore,
        if planningSignals.isEmpty then ["task-list"] else planningSignals, codingSignals⟩
    else if codingStrong && codingScore ≥ 3 && codingScore ≥ planningScore then chosen .coding
    else if codingScore ≥ 4 && codingScore ≥ planningScore + 1 then chosen .coding
    else if planningStrong && planningScore ≥ 3 && planningScore ≥ codingScore then chosen .planning
    else if planningScore ≥ 3 && planningScore ≥ codingScore then chosen .planning
    else if codingScore ≥ 2 && planningScore == 0 then chosen .coding
    else chosen .default

end RouteIntent

section Errors

/-- One of the parts is in the text. -/
def mentions (text : String) (parts : List String) : Bool :=
  parts.any fun part => decide (part.toList <:+: text.toList)

variable (rt : Runtime) (message : String)

def isLikelyTokenExhaustion : Bool :=
  mentions (rt.toLowerCase message)
    ["context length", "context window", "maximum context", "too many tokens", "token limit"]

def isNonRecoverableProviderError : Bool :=
  mentions (rt.toLowerCase message)
    ["not configured", "credentials missing", "model '", "not supported by the provider runtime",
      "permission denied", "eacces", "eperm", "read-only file system", "enospc",
      "connection refused", "econnrefused", "enotfound", "network", "fetch failed", "timed out",
      "timeout", "aborted"]

def shouldAutoResumeAfterProviderError : Bool :=
  !isNonRecoverableProviderError rt message && !isLikelyTokenExhaustion rt message &&
    mentions (rt.toLowerCase message)
      ["empty response", "non-empty response", "did not return an assistant response",
        "assistant response was empty"]

def isConnectivityProviderError : Bool :=
  mentions (rt.toLowerCase message)
    ["timed out", "timeout", "connection refused", "econnrefused", "enotfound", "network",
      "fetch failed", "aborted"]

def isTimeoutLikeError : Bool := mentions (rt.toLowerCase message) ["timed out", "timeout"]

end Errors

section LocalRoutes

/-- One to three digits, as a number. -/
def octet? (digits : List Char) : Option Nat :=
  if 1 ≤ digits.length ∧ digits.length ≤ 3 ∧ digits.all Char.isDigit then
    some (digits.foldl (fun n c => 10 * n + (c.toNat - 48)) 0)
  else none

/-- The first two numbers of an IPv4 address. -/
def ipv4? (host : String) : Option (Nat × Nat) :=
  match host.toList.splitOn '.' with
  | [a, b, c, d] => do
    let first ← octet? a
    let second ← octet? b
    let _ ← octet? c
    let _ ← octet? d
    return (first, second)
  | _ => none

def hostLooksLocal (rt : Runtime) (hostname : String) : Bool :=
  let host := rt.toLowerCase (trim hostname)
  if host = "" then false
  else if host = "localhost" || host = "::1" || ".local".toList.isSuffixOf host.toList then true
  else if "127.".toList.isPrefixOf host.toList then true
  else
    match ipv4? host with
    | none => false
    | some (a, b) =>
      a == 10 || (a == 192 && b == 168) || (a == 172 && 16 ≤ b && b ≤ 31) ||
        (a == 100 && 64 ≤ b && b ≤ 127)

/-- The runtime, the environment of the process, and the host name that `new URL` reads, if it
does not throw. -/
structure ServiceEnv where
  rt : Runtime
  setting : String → Option String
  hostname : String → Option String

variable (env : ServiceEnv)

def isLikelyLocalRoute (config : T560Config) (route : RoutingTarget) : Bool :=
  let providerId := env.rt.toLowerCase (trim route.provider)
  if providerId = "" then false
  else if providerId = "local-openai" || mentions providerId ["local"] then true
  else
    let profile := (config.providers.getD []).lookup route.provider
    let baseUrl := trim ((profile.bind (·.baseUrl)).getD "")
    if baseUrl = "" then false
    else
      match env.hostname baseUrl with
      | some hostname => hostLooksLocal env.rt hostname
      | none => false

end LocalRoutes

section Timeouts

def DEFAULT_CHAT_TIMEOUT_MS : Int := 15 * 60000
def MIN_CHAT_TIMEOUT_MS : Int := 5000
def MAX_CHAT_TIMEOUT_MS : Int := 24 * 60 * 60000
def DEFAULT_LOCAL_CHAT_TIMEOUT_MS : Int := 30 * 60000
def MIN_LOCAL_CHAT_TIMEOUT_MS : Int := 60000
def DEFAULT_GATEWAY_MESSAGE_TIMEOUT_MS : Int := 15 * 60000
def MIN_GATEWAY_MESSAGE_TIMEOUT_MS : Int := 5000
def MAX_GATEWAY_MESSAGE_TIMEOUT_MS : Int := 24 * 60 * 60000

variable (env : ServiceEnv)

/-- A variable that holds a positive finite number. -/
def positive? (name : String) : Option ℚ :=
  match env.rt.textNumber ((env.setting name).getD "") with
  | .fin q => if 0 < q then some q else none
  | _ => none

/-- A timeout in seconds or in milliseconds from the environment, cut to the bounds. -/
def resolveTimeoutMs (seconds millis : String) (low high default : Int) : Int :=
  match positive? env seconds with
  | some sec => min high (max low ⌊sec * 1000⌋)
  | none =>
    match positive? env millis with
    | some ms => min high (max low ⌊ms⌋)
    | none => default

def resolveChatTimeoutMs : Int :=
  resolveTimeoutMs env "T560_CHAT_TIMEOUT_SEC" "T560_CHAT_TIMEOUT_MS" MIN_CHAT_TIMEOUT_MS
    MAX_CHAT_TIMEOUT_MS DEFAULT_CHAT_TIMEOUT_MS

def resolveLocalChatTimeoutMs : Int :=
  resolveTimeoutMs env "T560_CHAT_TIMEOUT_LOCAL_SEC" "T560_CHAT_TIMEOUT_LOCAL_MS"
    MIN_LOCAL_CHAT_TIMEOUT_MS MAX_CHAT_TIMEOUT_MS DEFAULT_LOCAL_CHAT_TIMEOUT_MS

def resolveGatewayMessageTimeoutMs : Int :=
  resolveTimeoutMs env "T560_GATEWAY_MESSAGE_TIMEOUT_SEC" "T560_GATEWAY_MESSAGE_TIMEOUT_MS"
    MIN_GATEWAY_MESSAGE_TIMEOUT_MS MAX_GATEWAY_MESSAGE_TIMEOUT_MS DEFAULT_GATEWAY_MESSAGE_TIMEOUT_MS

/-- `\blog\s*in(?:to)?\b` -/
def inWord (front : String) : Pattern :=
  .concat [.boundary, .literal front, .run Js.isSpace none, .literal "in", .opt (.literal "to"),
    .boundary]

def LONG_RUNNING_PATTERNS : List Pattern :=
  [.word ["login"], inWord "log", inWord "sign", .word ["mfa"], .word ["2fa"],
    .concat [.boundary, .literal "one", dashOrSpace, .literal "time code", .boundary], .word ["otp"],
    .word ["dashboard"], .word ["balance"], .word ["account"], .word ["portfolio"],
    .word ["website"], .word ["web app"]]

def messageLikelyLongRunning (rt : Runtime) (message : String) : Bool :=
  let text := rt.toLowerCase message
  trim text ≠ "" && LONG_RUNNING_PATTERNS.any fun pattern => pattern.test text

/-- The base, raised for a message that is likely to take long. -/
def raisedFor (rt : Runtime) (message : String) (base high raised : Int) : Int :=
  if messageLikelyLongRunning rt message then min high (max base raised) else base

def resolveChatTimeoutForMessage (message : String) (route : RoutingTarget) (config : T560Config) :
    Int :=
  if isLikelyLocalRoute env config route then
    raisedFor env.rt message (resolveLocalChatTimeoutMs env) MAX_CHAT_TIMEOUT_MS (60 * 60000)
  else raisedFor env.rt message (resolveChatTimeoutMs env) MAX_CHAT_TIMEOUT_MS (30 * 60000)

def resolveGatewayTimeoutForMessage (message : String) : Int :=
  raisedFor env.rt message (resolveGatewayMessageTimeoutMs env) MAX_GATEWAY_MESSAGE_TIMEOUT_MS
    (45 * 60000)

end Timeouts

section Fallback

variable (rt : Runtime)

def routeKey (route : RoutingTarget) : String :=
  let provider := trim route.provider
  let model := trim route.model
  if provider = "" ∨ model = "" then "" else rt.toLowerCase provider ++ "::" ++ rt.toLowerCase model

/-- A later route takes the place of an earlier one with its key. -/
def routesByKey (routes : List RoutingTarget) : InsertionMap String RoutingTarget :=
  routes.foldl (fun m route => m.set (routeKey rt route) route) .empty

def chooseFallbackRoute (config : T560Config) (failedRoute : RoutingTarget) : Option RoutingTarget :=
  let failedKey := routeKey rt failedRoute
  let failedProvider := rt.toLowerCase (trim failedRoute.provider)
  let candidates := [Slot.default, .planning, .coding].filterMap fun slot =>
    Config.fullTarget (resolveRoutingTarget rt config slot)
  let unique := (routesByKey rt candidates).values.filter fun route =>
    routeKey rt route ≠ "" && routeKey rt route ≠ failedKey
  (unique.find? fun route => rt.toLowerCase (trim route.provider) ≠ failedProvider).or unique.head?

def parseExplicitBoolean (value : String) : Option Bool :=
  let normalized := rt.toLowerCase (trim value)
  if ["1", "true", "yes", "on"].contains normalized then some true
  else if ["0", "false", "no", "off"].contains normalized then some false
  else none

variable (env : ServiceEnv)

def explicitly (name : String) : Bool :=
  (parseExplicitBoolean env.rt ((env.setting name).getD "")).getD false

def allowFallbackFromLocal : Bool := explicitly env "T560_ALLOW_FALLBACK_FROM_LOCAL"

def allowCrossSlotFallback : Bool := explicitly env "T560_ALLOW_CROSS_SLOT_FALLBACK"

end Fallback

section Process

/-- What `chatWithProvider` returns. -/
structure ProviderReply where
  message : String
  thinking : Option String
  toolCalls : List String
  provider : String
  model : String
  deriving DecidableEq, Repr

/-- What a message waits for. `chatWithProvider` races a timer. -/
inductive Call where
  | readOnboardingStatus
  | handleSecureSetupFlow (sessionId message : String)
  | chatWithProvider (target : RoutingTarget) (message : String) (timeoutMs : Int)
  deriving DecidableEq

/-- The setup flow may have handled the message; the timer may win the race. -/
def Call.Answer : Call → Type
  | .readOnboardingStatus => OnboardingStatus
  | .handleSecureSetupFlow _ _ => Option String
  | .chatWithProvider _ _ _ => Option ProviderReply

abbrev Body := Prog Call Call.Answer String

def call (c : Call) : Body c.Answer := perform c

/-- `Math.round(ms / 1000)` -/
def roundedSeconds (ms : Int) : Int := ⌊(ms : ℚ) / 1000 + 1 / 2⌋

/-- `runWithTimeout`: a timer that wins throws. -/
def raced (timeoutMessage : String) : Except String (Option ProviderReply) → Except String ProviderReply
  | .ok (some reply) => .ok reply
  | .ok none => .error timeoutMessage
  | .error e => .error e

def foundationMessage (input channel : String) (missing : List String) : String :=
  " ".intercalate
    ["Foundation mode (" ++ channel ++ ") is active.",
      "You said: \"" ++ input ++ "\"",
      "To unlock provider inference, complete onboarding fields: " ++ ", ".intercalate missing ++ "."]

def slotText : Slot → String
  | .default => "default"
  | .planning => "planning"
  | .coding => "coding"

def formatProviderError (route : Option RoutingTarget) (slot : Slot) (channel message : String) :
    String :=
  "Provider error (" ++ channel ++ ") route=" ++ slotText slot ++ " via " ++
    (route.map (·.provider)).getD "unknown" ++ "/" ++ (route.map (·.model)).getD "unknown" ++ ". " ++
    message

def resumeText : String :=
  "Continue from the current session state and finish the user's previous request. Do not ask " ++
    "them to restate it."

/-- A reply that is not a provider's. -/
def plainReply (status : OnboardingStatus) (message : String) : ChatResponse where
  message := message
  thinking := none
  toolCalls := []
  mode := if status.onboarded then .provider else .foundation
  provider := none
  model := none
  onboardingRequired := !status.onboarded
  missing := if status.onboarded then [] else status.missing

def errorReply (route : Option RoutingTarget) (slot : Slot) (channel message : String) : ChatResponse where
  message := formatProviderError route slot channel message
  thinking := none
  toolCalls := []
  mode := .provider
  provider := route.map (·.provider)
  model := route.map (·.model)
  onboardingRequired := false
  missing := []

def providerResponse (reply : ProviderReply) (message : String) : ChatResponse where
  message := message
  thinking := reply.thinking
  toolCalls := reply.toolCalls
  mode := .provider
  provider := some reply.provider
  model := some reply.model
  onboardingRequired := false
  missing := []

variable (env : ServiceEnv)

/-- Ask the provider of a route, with the timeout of the message that was received. -/
def askProvider (config : T560Config) (received : String) (route : RoutingTarget)
    (message timeoutText : String) : Body (Except String ProviderReply) := do
  let chatTimeoutMs := resolveChatTimeoutForMessage env received route config
  let outcome : Except String (Option ProviderReply) ←
    attempt (call (.chatWithProvider route message chatTimeoutMs))
  return raced (timeoutText ++ toString (roundedSeconds chatTimeoutMs) ++ "s.") outcome

/-- The error of the primary route may be tried on another route. -/
def mayFallBack (config : T560Config) (route : RoutingTarget) (errorMessage : String) : Bool :=
  let localRoute := isLikelyLocalRoute env config route
  let skipFallbackForLocalTimeout := localRoute && isTimeoutLikeError env.rt errorMessage &&
    trim ((env.setting "T560_ALLOW_FALLBACK_ON_LOCAL_TIMEOUT").getD "") ≠ "1"
  let skipFallbackForLocalRoute := localRoute && !allowFallbackFromLocal env
  isConnectivityProviderError env.rt errorMessage && !skipFallbackForLocalTimeout &&
    !skipFallbackForLocalRoute && allowCrossSlotFallback env

def fallBack (config : T560Config) (slot : Slot) (input : GatewayInboundMessage)
    (route fallbackRoute : RoutingTarget) (errorMessage : String) : Body ChatResponse := do
  match ← askProvider env config input.message fallbackRoute input.message
      "Fallback chat request timed out after " with
  | .ok fallback =>
    return providerResponse fallback ("\n".intercalate
      ["Primary route " ++ routeText route ++ " failed (" ++ errorMessage ++ ").",
        "Used fallback " ++ routeText fallbackRoute ++ ".", "", fallback.message])
  | .error fallbackMessage =>
    return errorReply route slot input.channel ("Primary route failed (" ++ errorMessage ++
      "); fallback " ++ routeText fallbackRoute ++ " failed (" ++ fallbackMessage ++ ").")

/-- What is left to do when no other route is tried. -/
def resume (config : T560Config) (slot : Slot) (input : GatewayInboundMessage) (route : RoutingTarget)
    (errorMessage : String) : Body ChatResponse := do
  if shouldAutoResumeAfterProviderError env.rt errorMessage then
    match ← askProvider env config input.message route resumeText
        "Auto-resume request timed out after " with
    | .ok resumed => return providerResponse resumed resumed.message
    | .error resumeMessage =>
      return errorReply route slot input.channel ("Primary run failed (" ++ errorMessage ++
        "); auto-resume failed (" ++ resumeMessage ++ ").")
  else return errorReply route slot input.channel errorMessage

/-- The part behind the setup flow, on an onboarded installation. -/
def routeMessage (config : T560Config) (input : GatewayInboundMessage) : Body ChatResponse := do
  let slot := (analyzeRouteIntent env.rt input.message).slot
  let route := (resolveRoutingTarget env.rt config slot).or (resolveRoutingTarget env.rt config .default)
  match Config.fullTarget route with
  | none =>
    return errorReply route slot input.channel "Routing configuration is incomplete."
  | some route =>
    match ← askProvider env config input.message route input.message
        "Chat request timed out after " with
    | .ok response => return providerResponse response response.message
    | .error errorMessage =>
      let fallbackRoute :=
        if mayFallBack env config route errorMessage then chooseFallbackRoute env.rt config route
        else none
      match fallbackRoute with
      | some fallbackRoute => fallBack env config slot input route fallbackRoute errorMessage
      | none => resume env config slot input route errorMessage

def processChatMessage (input : GatewayInboundMessage) : Body ChatResponse := do
  let status : OnboardingStatus ← call .readOnboardingStatus
  let secureSetup : Except String (Option String) ←
    attempt (call (.handleSecureSetupFlow input.sessionId input.message))
  match secureSetup with
  | .error setupError => return plainReply status ("Secure setup error: " ++ setupError)
  | .ok (some message) => return plainReply status message
  | .ok none =>
    if status.onboarded then routeMessage env status.config input
    else
      return plainReply status (foundationMessage input.message input.channel status.missing)

end Process

end T560.Agent
