import T560.Agent.ChatService
import T560.Channels.Polling
import T560.Gateway.Client
import T560.Web.Frames

/-!
# The gateway server of the dashboard

The dashboard gives every socket a connection. A frame is handled as soon as it arrives, up to the
first wait of its handler; a handler that waits goes on when its call has returned, and many may
wait at once. A frame is sent only while the socket is open, so that an answer to a socket that has
closed is lost.
-/

namespace T560.Gateway

open Agent (ChatResponse GatewayInboundMessage)
open Channels.Polling (Thrown)
open Config (OnboardingStatus resolveRoutingTarget)
open Js (JsError Value collapse trim)
open Provider (injectMessage)
open Transcript (Message)
open Web (FrameEnv HistoryEntry isHeartbeatCheckMessage normalizeHistoryLimit readWebchatHistory
  sessionIdOf)

/-- The runtime with its session files, and the path of the configuration. -/
structure ServerEnv extends FrameEnv where
  configPath : String

/-- What a handler waits for: the status, the reply of the gateway, the messages of a session, its
turn to answer, or the save of a session. -/
inductive Stage where
  | connecting
  | replying
  | loadingHistory (key : String) (limit : Nat)
  | answeringHistory (messages : List HistoryEntry)
  | loadingInject (key message : String)
  | savingInject (key message : String) (history : List Message)

/-- A handler of a request that waits. -/
structure Handler where
  id : String
  stage : Stage

/-- What the calls of a handler return at the moment it goes on, and the time and the ids it draws. -/
structure Moment where
  status : Except Thrown OnboardingStatus
  reply : Except Thrown ChatResponse
  messages : Except Thrown (List Message)
  saved : Except Thrown Unit
  now : ℚ
  ids : Nat → String

/-- An event of the agent: its session, and the event as it is sent. -/
structure AgentEvent where
  sessionId : String
  payload : Value

/-- The session key of a client, as it was sent and as `String(key)`. -/
structure SessionKey where
  value : Value
  text : String

/-- `WsClient`. `bound` is the session whose agent events the client gets, `received` every frame
that arrived, `sent` every frame that went out, `handled` every message handed to the gateway. -/
structure Connection where
  sessionKey : SessionKey
  bound : Option String
  isOpen : Bool
  handlers : List Handler
  received : List WsFrame
  sent : List WsFrame
  handled : List GatewayInboundMessage

/-- `summarizeErrorMessage` -/
def summarizeErrorMessage (error : Thrown) : String :=
  let oneLine := trim (collapse error.text)
  if oneLine = "" then "Unknown error."
  else if 240 < oneLine.length then String.ofList (oneLine.toList.take 240) ++ "..."
  else oneLine

def buildFallbackChatResponse (error : Thrown) : ChatResponse where
  message := "I hit an internal error while processing that request: " ++ summarizeErrorMessage error
  thinking := none
  toolCalls := []
  mode := .provider
  provider := none
  model := none
  onboardingRequired := false
  missing := []

/-- `x ?? null` -/
def orNull (x : Option String) : Value := (x.map Value.str).getD .null

def toWsAssistantChatPayload (id : String) (now : ℚ) (reply : ChatResponse) : Value :=
  let safeMessage := if trim reply.message = "" then
      "I could not generate a non-empty response for this request. Please retry and I will continue " ++
        "from the current session state."
    else trim reply.message
  .obj [("id", .str id), ("role", .str "assistant"), ("message", .str safeMessage),
    ("thinking", orNull reply.thinking), ("toolCalls", .arr (reply.toolCalls.map Value.str)),
    ("provider", orNull reply.provider), ("model", orNull reply.model),
    ("timestamp", .num (.fin now))]

def injectedPayload (id : String) (now : ℚ) (message : String) : Value :=
  .obj [("id", .str id), ("role", .str "assistant"), ("message", .str message), ("thinking", .null),
    ("toolCalls", .arr []), ("provider", .null), ("model", .null), ("timestamp", .num (.fin now)),
    ("injected", .bool true)]

def historyPayload (ids : Nat → String) (key : Value) (messages : List HistoryEntry) : Value :=
  .obj [("sessionKey", key), ("messages", .arr (messages.zipIdx.map fun (entry, n) =>
    .obj [("id", .str (ids n)), ("role", .str entry.role), ("message", .str entry.message),
      ("timestamp", .num entry.timestamp)]))]

def responseFrame (id : String) (ok : Bool) (payload : Option Value) (error : Option WsError) : WsFrame :=
  { type := .res, id := some id, ok := some ok, payload, error }

def eventFrame (event : String) (payload : Option Value) : WsFrame :=
  { type := .event, event := some event, payload }

namespace Connection

/-- A client whose socket has just been accepted. -/
def accepted (sessionKey : String) : Connection :=
  ⟨⟨.str sessionKey, sessionKey⟩, some (sessionIdOf sessionKey), true, [], [], [], []⟩

variable (c : Connection)

def sendWsFrame (frame : WsFrame) : Connection :=
  if c.isOpen then { c with sent := c.sent ++ [frame] } else c

def sendWsResponse (id : String) (ok : Bool) (payload : Option Value := none)
    (error : Option WsError := none) : Connection :=
  c.sendWsFrame (responseFrame id ok payload error)

def sendWsEvent (event : String) (payload : Option Value := none) : Connection :=
  c.sendWsFrame (eventFrame event payload)

def fails (id code message : String) : Connection := c.sendWsResponse id false none (some ⟨code, message⟩)

def bindClientEvents : Connection := { c with bound := some (sessionIdOf c.sessionKey.text) }

def start (id : String) (stage : Stage) : Connection :=
  { c with handlers := c.handlers ++ [⟨id, stage⟩] }

end Connection

def param (params : Option Value) (key : String) : Option Value := params.bind (Value.get? · key)

/-- `(params?.message ?? "").trim()`; what is not a text has no `trim`. -/
def sendText (params : Option Value) : Option String :=
  match param params "message" with
  | none | some .null => some ""
  | some (.str text) => some (trim text)
  | some _ => none

section Handling
variable (env : ServerEnv)

/-- The key of `if (params?.sessionKey)`. An object that has no text sets no key here: the source keeps
it, and every later use of it throws. -/
def sessionKey? (params : Option Value) : Option SessionKey :=
  ((param params "sessionKey").filter fun key => Value.truthy (some key)).bind fun value =>
    (value.text env.rt).toOption.map fun text => ⟨value, text⟩

def Connection.switchTo (c : Connection) (params : Option Value) : Connection :=
  match sessionKey? env params with
  | some sessionKey => { c with sessionKey }.bindClientEvents
  | none => c

/-- `String(params?.message ?? "").trim()` -/
def injectText (params : Option Value) : Except JsError String :=
  match param params "message" with
  | none | some .null => .ok ""
  | some value => (value.text env.rt).map trim

/-- The exception of `String(value)` and `Number(value)`. -/
def primitiveError : Thrown := .error "TypeError" "Cannot convert object to primitive value"

def missingMessage : String := "The message field is required."

def inboundMessage (key message : String) : GatewayInboundMessage :=
  ⟨"webchat", message, sessionIdOf key, "webchat-user"⟩

def snapshot (c : Connection) (status : OnboardingStatus) : Value :=
  let defaultRoute := resolveRoutingTarget env.rt status.config .default
  .obj [("snapshot", .obj [
    ("status", .obj [("mode", .str (if status.onboarded then "provider" else "foundation")),
      ("provider", orNull (defaultRoute.map (·.provider))),
      ("model", orNull (defaultRoute.map (·.model))),
      ("onboardingRequired", .bool !status.onboarded),
      ("missing", .arr (status.missing.map Value.str)),
      ("config", .obj [("configPath", .str env.configPath),
        ("providers", .arr ((status.config.providers.getD []).map fun f => Value.str f.1))])]),
    ("sessionKey", c.sessionKey.value)])]

/-- The case `chat.send`, up to its wait. -/
def Connection.chatSend (c : Connection) (id : String) (params : Option Value) : Connection :=
  match sendText params with
  -- the exception leaves the handler, and nothing is answered
  | none => c
  | some message =>
    if message = "" then c.fails id "missing_message" missingMessage
    else
      let c := ((c.switchTo env params).sendWsResponse id true).sendWsEvent "chat.sending"
      if isHeartbeatCheckMessage env.toFrameEnv message then c.sendWsEvent "chat.done"
      else
        { c with handled := c.handled ++ [inboundMessage c.sessionKey.text message] }.start id .replying

def Connection.chatHistory (c : Connection) (id : String) (params : Option Value) : Connection :=
  let c := c.switchTo env params
  match normalizeHistoryLimit env.toFrameEnv (param params "limit") with
  | .ok limit => c.start id (.loadingHistory c.sessionKey.text limit)
  | .error _ => c.fails id "history_failed" (summarizeErrorMessage primitiveError)

def Connection.chatInject (c : Connection) (id : String) (params : Option Value) : Connection :=
  match injectText env params with
  | .error _ => c.fails id "inject_failed" (summarizeErrorMessage primitiveError)
  | .ok message =>
    if message = "" then c.fails id "missing_message" missingMessage
    else
      let c := c.switchTo env params
      c.start id (.loadingInject c.sessionKey.text message)

/-- A request has a method and an id. -/
def requestOf (frame : WsFrame) : Option (String × String) :=
  if frame.type = .req then
    (filled frame.method).bind fun method => (filled frame.id).map fun id => (method, id)
  else none

/-- `handleWsMessage` up to the first wait. -/
def Connection.handleWsMessage (c : Connection) (frame : WsFrame) : Connection :=
  match requestOf frame with
  | none => c
  | some (method, id) =>
    if method = "connect" then c.start id .connecting
    else if method = "chat.send" then c.chatSend env id frame.params
    else if method = "chat.history" then c.chatHistory env id frame.params
    else if method = "chat.inject" then c.chatInject env id frame.params
    else if method = "chat.abort" then (c.sendWsResponse id true).sendWsEvent "chat.done"
    else c.fails id "unknown_method" ("Unknown method: " ++ method)

/-- What a handler does when its wait is over, and the wait that follows. -/
def Connection.goOn (c : Connection) (m : Moment) (id : String) : Stage → Connection × Option Stage
  | .connecting =>
    match m.status with
    | .ok status => (c.sendWsResponse id true (some (snapshot env c status)), none)
    | .error (.error _ message) => (c.fails id "connect_failed" message, none)
    | .error (.value _ _) => (c.fails id "connect_failed" "Connect failed", none)
  | .replying =>
    let reply := match m.reply with
      | .ok reply => reply
      | .error e => buildFallbackChatResponse e
    ((c.sendWsEvent "chat" (some (toWsAssistantChatPayload (m.ids 0) m.now reply))).sendWsEvent "chat.done",
      none)
  | .loadingHistory _ limit =>
    match m.messages with
    | .ok all => (c, some (.answeringHistory (readWebchatHistory m.now limit all)))
    | .error e => (c.fails id "history_failed" (summarizeErrorMessage e), none)
  | .answeringHistory messages =>
    (c.sendWsResponse id true (some (historyPayload m.ids c.sessionKey.value messages)), none)
  | .loadingInject key message =>
    match m.messages with
    | .ok history => (c, some (.savingInject key message (history ++ [injectMessage message m.now])))
    | .error e => (c.fails id "inject_failed" (summarizeErrorMessage e), none)
  | .savingInject _ message _ =>
    match m.saved with
    | .ok () =>
      let c := c.sendWsResponse id true
        (some (.obj [("ok", .bool true), ("sessionKey", c.sessionKey.value)]))
      (c.sendWsEvent "chat" (some (injectedPayload (m.ids 0) m.now message)), none)
    | .error e => (c.fails id "inject_failed" (summarizeErrorMessage e), none)

/-- What happens to a connection: a frame arrives, the handler at a place goes on, the agent emits
an event, or the socket closes. -/
inductive ServerEvent where
  | frame (frame : WsFrame)
  | goOn (i : Nat) (m : Moment)
  | agent (e : AgentEvent)
  | close

def Connection.handlerGoesOn (c : Connection) (i : Nat) (m : Moment) : Connection :=
  match c.handlers[i]? with
  | none => c
  | some h =>
    match c.goOn env m h.id h.stage with
    | (c, some stage) => { c with handlers := c.handlers.set i ⟨h.id, stage⟩ }
    | (c, none) => { c with handlers := c.handlers.eraseIdx i }

/-- One event; a socket that has closed gets no frame. -/
def Connection.step (c : Connection) : ServerEvent → Connection
  | .frame frame =>
    if c.isOpen then { c with received := c.received ++ [frame] }.handleWsMessage env frame else c
  | .goOn i m => c.handlerGoesOn env i m
  | .agent e => if c.bound = some e.sessionId then c.sendWsEvent "agent.event" (some e.payload) else c
  | .close => { c with isOpen := false, bound := none }

end Handling

end T560.Gateway
