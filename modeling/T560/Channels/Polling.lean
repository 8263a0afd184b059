import T560.Config.Onboarding
import T560.Format.Markdown
import T560.Foundation.EventRun
import T560.Foundation.Program

/-!
# The polling loop of the Telegram bridge

The loop asks the server for the updates from its offset on and handles them one after the
other. The offset is advanced before an update is handled. One `try` covers the request and the
handling of all updates that it brought; its `catch` ends the loop when the bridge was closed or
the error is named `AbortError`, and pauses otherwise. The server keeps the updates in the order
of their ids, answers with the first of those it is asked for, and forgets the ids below an
offset that reaches it.
-/

namespace T560.Channels.Polling

open Program (Prog perform tryFinally)
open Config (T560Config OnboardingStatus TelegramDmPolicy)
open Format (ChatResponse formatTelegramResponse)
open Js (Runtime)

/-- An update: its id, `message.text`, `message.chat.id` and `message.from.id`. -/
structure TelegramUpdate where
  update_id : Nat
  text : Option String
  chatId : Option Int
  fromId : Option Int
  deriving DecidableEq, Repr

/-- What can be thrown: an `Error`, or any other value with its `name`, if it has one, and its
text. -/
inductive Thrown where
  | error (name message : String)
  | value (name : Option String) (text : String)
  deriving DecidableEq, Repr

/-- `err?.name` -/
def Thrown.name? : Thrown → Option String
  | .error name _ => some name
  | .value name _ => name

def Thrown.text : Thrown → String
  | .error _ message => message
  | .value _ text => text

def Thrown.isAbort (e : Thrown) : Bool := e.name? == some "AbortError"

/-- The calls that the handling of an update waits for. -/
inductive Call where
  | sendTelegramMessage (chatId : Int) (text : String) (html : Bool)
  | readOnboardingStatus
  | readConfig
  | clearSessionMessages (sessionId : String)
  | isPairingApproved (userId chatId : String)
  | requestPairingCode (userId chatId : String)
  | createTelegramProgressRelay (chatId : Int) (sessionId : String)
  | handleMessage (message sessionId externalUserId : String)
  | closeProgressRelay
  deriving DecidableEq, Repr

def Call.Answer : Call → Type
  | .readOnboardingStatus => OnboardingStatus
  | .readConfig => T560Config
  | .isPairingApproved _ _ => Bool
  | .requestPairingCode _ _ => String
  | .handleMessage _ _ _ => Option ChatResponse
  | _ => Unit

abbrev Body := Prog Call Call.Answer Thrown

def call (c : Call) : Body c.Answer := perform c

def sendTelegramMessage (chatId : Int) (text : String) : Body Unit :=
  call (.sendTelegramMessage chatId text false)

section Handling

def HEARTBEAT_MESSAGES : List String :=
  ["heartbeat", "heart beat", "heart-beat", "/heartbeat", "ping", "/ping", "healthcheck",
    "health check", "health-check", "/health"]

def isHeartbeatCheckMessage (rt : Runtime) (value : String) : Bool :=
  HEARTBEAT_MESSAGES.contains (rt.toLowerCase (Js.trim value))

/-- A sender is allowed by its text or, when it is an integer, by its number. -/
def isAllowedTelegramSender (config : T560Config) (sender : Int) : Bool :=
  let telegram := config.channels.map (·.telegram)
  let normalized := Config.senderOf (toString sender)
  let allowFrom := (telegram.bind (·.allowFrom)).getD []
  let allowedChatIds := (telegram.bind (·.allowedChatIds)).getD []
  normalized ≠ "" &&
    ((allowFrom.any fun entry => Config.senderOf entry == normalized) ||
      allowedChatIds.contains sender)

def dmPolicyOf (config : T560Config) : TelegramDmPolicy :=
  (config.channels.map (·.telegram.dmPolicy)).getD .pairing

def resolveDmPolicy : Body TelegramDmPolicy := do
  return dmPolicyOf (← call .readConfig)

structure Acceptance where
  allowed : Bool
  dmPolicy : TelegramDmPolicy
  pairingCode : Option String := none
  deriving DecidableEq

def shouldAcceptMessage (userId chatId : Int) : Body Acceptance := do
  let config : T560Config ← call .readConfig
  let dmPolicy := dmPolicyOf config
  let listed := isAllowedTelegramSender config userId || isAllowedTelegramSender config chatId
  match dmPolicy with
  | .disabled => return { allowed := false, dmPolicy }
  | .open => return { allowed := true, dmPolicy }
  | .allowlist => return { allowed := listed, dmPolicy }
  | .pairing =>
    if listed then return { allowed := true, dmPolicy }
    let paired : Bool ← call (.isPairingApproved (toString userId) (toString chatId))
    if paired then return { allowed := true, dmPolicy }
    let code : String ← call (.requestPairingCode (toString userId) (toString chatId))
    return { allowed := false, dmPolicy, pairingCode := some code }

def pairingText (pairingCode : Option String) : String :=
  "\n".intercalate
    ["Pairing required before I can respond in this chat.",
      "Your pairing code: " ++ pairingCode.getD "(unknown)",
      "Owner command:",
      "t560 pairing approve telegram " ++ pairingCode.getD "<code>"]

def refuse (chatId : Int) (auth : Acceptance) : Body Unit :=
  match auth.dmPolicy with
  | .disabled => sendTelegramMessage chatId "Telegram DMs are disabled for this bot."
  | .allowlist =>
    sendTelegramMessage chatId
      "This chat is not allowed. Ask the owner to allowlist your Telegram user/chat ID."
  | _ => sendTelegramMessage chatId (pairingText auth.pairingCode)

def sendStatus (chatId : Int) : Body Unit := do
  let latestStatus : OnboardingStatus ← call .readOnboardingStatus
  let mode := if latestStatus.onboarded then "provider" else "foundation"
  let dmPolicy ← resolveDmPolicy
  let missing := ", ".intercalate latestStatus.missing
  sendTelegramMessage chatId
    ("t560 status: " ++ mode ++ ". dmPolicy=" ++ dmPolicy.text ++ ". Missing: " ++
      (if missing = "" then "none" else missing) ++ ".")

/-- What the loop does with a message that no command takes. -/
def answerMessage (text : String) (chatId fromId : Int) : Body Unit := do
  let auth ← shouldAcceptMessage fromId chatId
  if !auth.allowed then refuse chatId auth
  else
    let sessionId := "telegram:" ++ toString chatId
    let _ ← call (.createTelegramProgressRelay chatId sessionId)
    let reply : Option ChatResponse ←
      tryFinally (call .closeProgressRelay) (call (.handleMessage text sessionId (toString fromId)))
    match reply with
    | none => return ()
    | some reply => call (.sendTelegramMessage chatId (formatTelegramResponse reply) true)

/-- The body of the loop over the updates. -/
def handleUpdate (rt : Runtime) (update : TelegramUpdate) : Body Unit :=
  match update.text.map Js.trim, update.chatId, update.fromId.or update.chatId with
  | some text, some chatId, some fromId =>
    if text = "" then return ()
    else if isHeartbeatCheckMessage rt text then return ()
    else if text = "/start" then
      sendTelegramMessage chatId
        "t560 connected. Send a message and I will reply. Use /status for mode + onboarding status."
    else if text = "/status" then sendStatus chatId
    else if text = "/new" ∨ text = "/reset" then do
      let _ ← call (.clearSessionMessages ("telegram:" ++ toString chatId))
      sendTelegramMessage chatId "Started a fresh chat session for this conversation."
    else answerMessage text chatId fromId
  | _, _, _ => return ()

end Handling

section Loop

/-- Where the loop waits: for `getUpdates`, for a call of the handling of an update with the
updates behind it, for the end of a pause, or nowhere. -/
inductive Phase where
  | polling
  | handling (rest : List TelegramUpdate) (c : Call) (next : Except Thrown c.Answer → Body Unit)
  | pausing
  | exited

def Phase.isExited : Phase → Bool
  | .exited => true
  | _ => false

/-- The updates of the batch that have not been taken up. -/
def Phase.batch : Phase → List TelegramUpdate
  | .handling rest _ _ => rest
  | _ => []

/-- The bridge and the server. `arrived` and `handled` list every update that came to the server
and every update that the loop took up. -/
structure Bridge where
  running : Bool
  offset : Nat
  phase : Phase
  stderr : List String
  pending : List TelegramUpdate
  arrived : List TelegramUpdate
  handled : List TelegramUpdate

def Bridge.start : Bridge := ⟨true, 0, .polling, [], [], [], []⟩

inductive Event where
  /-- An update comes to the server. -/
  | arrive (update : TelegramUpdate)
  /-- `close()` -/
  | close
  /-- `getUpdates` returns the first updates from the offset on. -/
  | polled (count : Nat)
  /-- `getUpdates` throws; the request may have reached the server. -/
  | pollFailed (e : Thrown) (reached : Bool)
  /-- The call that the handling waits for returns or throws. -/
  | answered (outcome : (c : Call) → Except Thrown c.Answer)
  /-- The pause is over. -/
  | woke

/-- `while (running)` -/
def Bridge.loop (b : Bridge) : Bridge := { b with phase := if b.running then .polling else .exited }

/-- The `catch` of the loop. -/
def Bridge.catch (b : Bridge) (e : Thrown) : Bridge :=
  if !b.running || e.isAbort then { b with phase := .exited }
  else { b with phase := .pausing, stderr := b.stderr ++ ["[telegram] " ++ e.text ++ "\n"] }

/-- The loop takes up an update: the offset is advanced first. -/
def Bridge.begin (b : Bridge) (update : TelegramUpdate) : Bridge :=
  { b with offset := max b.offset (update.update_id + 1), handled := b.handled ++ [update] }

/-- The updates the server still has from the offset on. -/
def Bridge.ahead (b : Bridge) : List TelegramUpdate :=
  b.pending.filter fun u => b.offset ≤ u.update_id

/-- The server forgets what is below the offset it is asked for. -/
def Bridge.acknowledge (b : Bridge) : Bridge := { b with pending := b.ahead }

variable (rt : Runtime)

def Bridge.forUpdates : Bridge → List TelegramUpdate → Bridge
  | b, [] => b.loop
  | b, update :: rest =>
    match handleUpdate rt update with
    | .done _ => Bridge.forUpdates (b.begin update) rest
    | .throws e => (b.begin update).catch e
    | .waits c next => { b.begin update with phase := .handling rest c next }

/-- The handling of an update goes on. -/
def Bridge.resume (b : Bridge) (rest : List TelegramUpdate) : Body Unit → Bridge
  | .done _ => b.forUpdates rt rest
  | .throws e => b.catch e
  | .waits c next => { b with phase := .handling rest c next }

/-- What an event does; one that cannot happen in a state changes nothing. -/
def Bridge.step (b : Bridge) : Event → Bridge
  | .arrive update =>
    if ∀ u ∈ b.arrived, u.update_id < update.update_id then
      { b with pending := b.pending ++ [update], arrived := b.arrived ++ [update] }
    else b
  | .close => { b with running := false }
  | .polled count =>
    match b.phase with
    | .polling => b.acknowledge.forUpdates rt (b.ahead.take count)
    | _ => b
  | .pollFailed e reached =>
    match b.phase with
    | .polling => (if reached then b.acknowledge else b).catch e
    | _ => b
  | .answered outcome =>
    match b.phase with
    | .handling rest c next => b.resume rt rest (next (outcome c))
    | _ => b
  | .woke =>
    match b.phase with
    | .pausing => b.loop
    | _ => b

end Loop

end T560.Channels.Polling
