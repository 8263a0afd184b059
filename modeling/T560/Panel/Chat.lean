import Mathlib.Data.List.DropRight
import Mathlib.Data.Rat.Floor
import T560.Foundation.Outbox
import T560.Js.Ascii

/-!
# The chat of the control panel

The panel sends one message at a time. What is typed while a reply is awaited waits in a queue; the
end of a reply sends the next of them. The messages that are shown grow with the replies, the live
progress of the agent and its errors.
-/

namespace T560.Panel

open Js (JsError Runtime Value trim)
open Js.Value (coalesce text trimmedText truthy)

inductive Role where
  | user
  | assistant
  deriving DecidableEq, Repr

structure ChatMessage where
  id : Value
  role : Role
  content : String
  thinking : Value := .null
  toolCalls : Value := .arr []
  timestamp : Value
  provider : Value := .null
  model : Value := .null

structure LiveProgressState where
  messageId : Option String := none
  lines : List String := []
  lastLine : String := ""
  lastAt : ℚ := 0

/-- What the panel asks the gateway for. -/
inductive Request where
  | send (message : String) (sessionKey : Option String) (attachments : Option (List String))
  | abort (sessionKey : Option String)
  deriving DecidableEq

/-- `connected` is that of the gateway client. `requests` lists what the gateway was asked for, and
`taken` every text that was typed and not turned away. -/
structure T560App where
  connected : Bool
  sessionKey : String
  chatMessages : List ChatMessage
  chatSending : Bool
  chatLoading : Bool
  chatQueue : List String
  chatAttachments : List String
  lastError : String
  progress : LiveProgressState
  requests : List Request
  taken : List String

/-- What the clock and the random numbers bring to an event. -/
structure Draw where
  now : ℚ
  uuid : String
  uuids : Nat → String
  shortId : String

section Send

variable (rt : Runtime)

/-- `trimmed.startsWith("/")`, and the command in lower case -/
def isCommand (command trimmed : String) : Bool :=
  trimmed.toList.head? = some '/' && rt.toLowerCase trimmed = command

variable (app : T560App)

def T560App.keyOrUndefined : Option String := if app.sessionKey = "" then none else some app.sessionKey

def T560App.abortChat : T560App :=
  if app.connected then
    { app with
      requests := app.requests ++ [.abort app.keyOrUndefined]
      chatSending := false
      chatLoading := false }
  else app

def T560App.show (message : ChatMessage) : T560App :=
  { app with chatMessages := app.chatMessages ++ [message] }

def T560App.sendMessage (d : Draw) (text : String) : T560App :=
  let trimmed := trim text
  if trimmed = "" then app
  else if isCommand rt "/new" trimmed then
    { app with sessionKey := d.shortId, chatMessages := [], chatQueue := [] }
  else if isCommand rt "/stop" trimmed then app.abortChat
  else if app.chatSending then { app with chatQueue := app.chatQueue ++ [trimmed] }
  else if ¬ app.connected then { app with lastError := "Not connected to gateway" }
  else
    { app.show { id := .str d.uuid, role := .user, content := trimmed, timestamp := .num (.fin d.now) } with
      chatSending := true
      chatLoading := true
      requests := app.requests ++ [.send trimmed app.keyOrUndefined
        (if app.chatAttachments = [] then none else some app.chatAttachments)]
      chatAttachments := [] }

/-- The text of a message that is sent or put into the queue. -/
def T560App.accepts (text : String) : Option String :=
  let trimmed := trim text
  if trimmed = "" ∨ isCommand rt "/new" trimmed ∨ isCommand rt "/stop" trimmed then none
  else if app.chatSending ∨ app.connected then some trimmed
  else none

end Send

section Events

variable (rt : Runtime)

/-- `payload?.[key]` -/
def field (payload : Option Value) (key : String) : Option Value := payload.bind (Value.get? · key)

/-- `a === b`, of values that were made at different times. -/
def strictEquals (a b : Value) : Bool := a = b && !a.isObject && a ≠ .num .nan

def summarizeAgentEvent (event : Option Value) : Option String :=
  if field event "stream" = some (.str "assistant") then
    (Value.str? (field (field event "data") "text")).bind fun text => if trim text = "" then none else some (trim text)
  else none

def progressContent (lines : List String) : String :=
  "**Working update**\n" ++ "\n".intercalate (lines.map fun entry => "- " ++ entry)

namespace T560App

variable (app : T560App) (d : Draw)

/-- A line is dropped that repeats the last one within five seconds, or comes within 450 ms. -/
def pushLiveProgress (line : String) : T560App :=
  let text := trim line
  let state := app.progress
  if text = "" then app
  else if text = state.lastLine ∧ d.now - state.lastAt < 5000 then app
  else if d.now - state.lastAt < 450 then app
  else
    let lines := (state.lines ++ [text]).rtake 8
    let state := { state with lines, lastLine := text, lastAt := d.now }
    let content := progressContent lines
    let found := (state.messageId.filter (· ≠ "")).bind fun id =>
      app.chatMessages.findIdx? fun m => strictEquals m.id (.str id)
    match found with
    | some idx =>
      { app with
        progress := state
        chatMessages := app.chatMessages.modify idx fun m =>
          { m with content, timestamp := .num (.fin d.now) } }
    | none =>
      { app.show { id := .str d.uuid, role := .assistant, content, timestamp := .num (.fin d.now) } with
        progress := { state with messageId := some d.uuid } }

def resetLiveProgressState : T560App := { app with progress := {} }

def emptyReply : String :=
  "I could not generate a non-empty response for this request. " ++
    "Please retry and I will continue from the current session state."

/-- A message with the id of one that is shown takes its place. -/
def showOrReplace (msg : ChatMessage) : T560App :=
  match app.chatMessages.findIdx? fun m => strictEquals m.id msg.id with
  | some existing => { app with chatMessages := app.chatMessages.set existing msg }
  | none => app.show msg

/-- A payload whose text cannot be read throws, and nothing has changed. -/
def handleChatEvent (payload : Option Value) : T560App :=
  let role := if field payload "role" = some (.str "user") then Role.user else .assistant
  match trimmedText rt [field payload "message"] with
  | .error _ => app
  | .ok rawContent =>
    let content := if rawContent ≠ "" then rawContent else if role = .assistant then emptyReply else ""
    if ¬ truthy payload ∨ content = "" then app
    else
      let msg : ChatMessage := {
        id := (coalesce [field payload "id"]).getD (.str d.uuid)
        role
        content
        thinking := (coalesce [field payload "thinking"]).getD .null
        toolCalls := (coalesce [field payload "toolCalls"]).getD (.arr [])
        timestamp := (coalesce [field payload "timestamp"]).getD (.num (.fin d.now))
        provider := (coalesce [field payload "provider"]).getD .null
        model := (coalesce [field payload "model"]).getD .null }
      app.showOrReplace msg

/-- The reply has ended, and the first text of the queue is sent. -/
def chatDone : T560App :=
  let app := { app with chatSending := false, chatLoading := false }.resetLiveProgressState
  match app.chatQueue with
  | [] => app
  | next :: rest => { app with chatQueue := rest }.sendMessage rt d next

def chatError (payload : Option Value) : T560App :=
  let app := { app with chatSending := false, chatLoading := false }.resetLiveProgressState
  match (coalesce [field payload "message", some (.str "An error occurred")]).map (text rt) with
  | some (.ok errMsg) =>
    app.show
      { id := .str d.uuid, role := .assistant, content := "**Error:** " ++ errMsg,
        timestamp := .num (.fin d.now) }
  | _ => app

def handleGatewayEvent (event : String) (payload : Option Value) : T560App :=
  if event = "chat" then app.handleChatEvent rt d payload
  else if event = "chat.sending" then { app with chatSending := true }.resetLiveProgressState
  else if event = "chat.done" then app.chatDone rt d
  else if event = "agent.event" then
    match summarizeAgentEvent payload with
    | some line => app.pushLiveProgress d line
    | none => app
  else if event = "chat.error" then app.chatError rt d payload
  else app

/-- The messages of a history with a text. -/
def mapHistoryPayloadMessages (payload : Option Value) : Except JsError (List ChatMessage) := do
  let items := match field payload "messages" with
    | some (.arr items) => items
    | _ => []
  let messages ← (items.zipIdx.mapM fun (item, n) => do
    let id ← Value.textOrEmpty rt (coalesce [item.get? "id", some (.str (d.uuids n))])
    let content ← trimmedText rt [item.get? "message"]
    let timestamp := match item.get? "timestamp" with
      | some (.num q) => Value.num q
      | _ => .num (.fin d.now)
    return ({
      id := .str id
      role := if item.get? "role" = some (.str "user") then .user else .assistant
      content
      timestamp } : ChatMessage))
  return messages.filter (·.content ≠ "")

/-- The answer to `chat.history`. What throws on the way leaves the messages. -/
def historyLoaded (payload : Option Value) : T560App :=
  let key := (field payload "sessionKey").filter fun key => truthy (some key)
  match (key.map (text rt)).getD (.ok app.sessionKey) with
  | .error _ => app
  | .ok sessionKey =>
    let app := { app with sessionKey }
    match mapHistoryPayloadMessages rt d payload with
    | .error _ => app
    | .ok mapped => if mapped ≠ [] ∨ app.chatMessages = [] then { app with chatMessages := mapped } else app

/-- The request of a message was rejected. -/
def sendFailed (message : String) : T560App :=
  { app with chatSending := false, chatLoading := false, lastError := message }

end T560App

/-- What the user does, what the gateway brings, and what becomes of the connection. -/
inductive PanelEvent where
  | submit (d : Draw) (text : String)
  | abort
  | newChatSession (d : Draw)
  | clearChatView
  | removeQueue (idx : Nat)
  | attach (dataUrl : String)
  | removeAttachment (idx : Nat)
  | gatewayEvent (d : Draw) (event : String) (payload : Option Value)
  | historyLoaded (d : Draw) (payload : Option Value)
  | sendFailed (message : String)
  | connection (connected : Bool)

def T560App.step (app : T560App) : PanelEvent → T560App
  | .submit d text => { app.sendMessage rt d text with taken := app.taken ++ (app.accepts rt text).toList }
  | .abort => app.abortChat
  | .newChatSession d =>
    { app with sessionKey := d.shortId, chatMessages := [], chatQueue := [], chatAttachments := [] }
  | .clearChatView => { app with chatMessages := [], chatQueue := [], chatAttachments := [] }
  | .removeQueue idx => { app with chatQueue := app.chatQueue.eraseIdx idx }
  | .attach dataUrl => { app with chatAttachments := app.chatAttachments ++ [dataUrl] }
  | .removeAttachment idx => { app with chatAttachments := app.chatAttachments.eraseIdx idx }
  | .gatewayEvent d event payload => app.handleGatewayEvent rt d event payload
  | .historyLoaded d payload => app.historyLoaded rt d payload
  | .sendFailed message => app.sendFailed message
  | .connection connected => { app with connected }

end Events

/-! ## The panel as a sender with a queue -/

def Request.text? : Request → Option String
  | .send message _ _ => some message
  | .abort _ => none

def T560App.outbox (app : T560App) : Outbox String :=
  ⟨app.chatSending, app.chatQueue, app.requests.filterMap Request.text?, app.taken⟩

section Refinement

variable (rt : Runtime)

/-- What an event of the panel is for its queue. -/
def T560App.outboxEvent (app : T560App) : PanelEvent → Outbox.Event String
  | .submit _ text =>
    let trimmed := trim text
    if trimmed = "" then .idle
    else if isCommand rt "/new" trimmed then .clear
    else if isCommand rt "/stop" trimmed then (if app.connected then .ended else .idle)
    else .submit app.connected trimmed
  | .abort => if app.connected then .ended else .idle
  | .newChatSession _ | .clearChatView => .clear
  | .removeQueue idx => .remove idx
  | .gatewayEvent _ event _ =>
    if event = "chat.sending" then .began
    else if event = "chat.done" then .done app.connected
    else if event = "chat.error" then .ended
    else .idle
  | .sendFailed _ => .ended
  | _ => .idle

/-- A text that waits is one that is sent when its turn comes. -/
structure Sendable (t : String) : Prop where
  trimmed : trim t = t
  ne : t ≠ ""
  notNew : isCommand rt "/new" t = false
  notStop : isCommand rt "/stop" t = false

def T560App.Ready (app : T560App) : Prop := ∀ t ∈ app.chatQueue, Sendable rt t

variable {rt} {app : T560App} {d : Draw} {text : String}

theorem accepts_sendable (h : app.accepts rt text = some t) : Sendable rt t ∧ t = trim text := by
  unfold T560App.accepts at h
  dsimp only at h
  split_ifs at h with hnone
  obtain rfl := Option.some.inj h
  simp only [not_or, Bool.not_eq_true] at hnone
  exact ⟨⟨Js.trim_trim text, hnone.1, hnone.2.1, hnone.2.2⟩, rfl⟩

/-- What `sendMessage` does to the queue. -/
theorem sendMessage_outbox (app : T560App) (d : Draw) (text : String) :
    ({ app.sendMessage rt d text with taken := app.taken ++ (app.accepts rt text).toList } : T560App).outbox =
      app.outbox.step (app.outboxEvent rt (.submit d text)) := by
  unfold T560App.sendMessage T560App.accepts T560App.outboxEvent
  dsimp only
  by_cases hblank : trim text = ""
  · simp [hblank, T560App.outbox, Outbox.step]
  rw [if_neg hblank, if_neg hblank]
  by_cases hnew : isCommand rt "/new" (trim text) = true
  · simp [hnew, T560App.outbox, Outbox.step]
  rw [if_neg hnew, if_neg hnew]
  by_cases hstop : isCommand rt "/stop" (trim text) = true
  · cases hconnected : app.connected <;>
      simp [hstop, hconnected, T560App.abortChat, T560App.outbox, Outbox.step, List.filterMap_append, Request.text?]
  have hplain : ¬ (trim text = "" ∨ isCommand rt "/new" (trim text) = true ∨
      isCommand rt "/stop" (trim text) = true) := by
    simp [hblank, hnew, hstop]
  rw [if_neg hstop, if_neg hstop, if_neg hplain]
  cases hsending : app.chatSending <;> cases hconnected : app.connected <;>
    simp [hsending, hconnected, T560App.outbox, Outbox.step, Outbox.post, T560App.show, Request.text?]

/-- A text whose turn has come is sent, or lost when the connection is. -/
theorem sendMessage_next (hidle : app.chatSending = false) (ht : Sendable rt text) :
    (app.sendMessage rt d text).outbox = if app.connected then app.outbox.post text else app.outbox := by
  unfold T560App.sendMessage
  dsimp only
  rw [ht.trimmed, if_neg ht.ne, if_neg (by simp [ht.notNew]), if_neg (by simp [ht.notStop]),
    if_neg (by simp [hidle])]
  cases hconnected : app.connected <;>
    simp [T560App.outbox, Outbox.post, T560App.show, Request.text?]

theorem showOrReplace_outbox (msg : ChatMessage) : (app.showOrReplace msg).outbox = app.outbox := by
  unfold T560App.showOrReplace
  split <;> rfl

theorem handleChatEvent_outbox (payload : Option Value) :
    (app.handleChatEvent rt d payload).outbox = app.outbox := by
  unfold T560App.handleChatEvent
  cases trimmedText rt [field payload "message"] with
  | error e => rfl
  | ok rawContent =>
    dsimp only
    generalize (if rawContent ≠ "" then rawContent else _) = content
    by_cases hnone : ¬ truthy payload = true ∨ content = ""
    · rw [if_pos hnone]
    · rw [if_neg hnone]
      exact showOrReplace_outbox _

theorem pushLiveProgress_outbox (line : String) : (app.pushLiveProgress d line).outbox = app.outbox := by
  unfold T560App.pushLiveProgress
  dsimp only
  split_ifs
  · rfl
  · rfl
  · rfl
  · split <;> rfl

theorem historyLoaded_outbox (payload : Option Value) :
    (app.historyLoaded rt d payload).outbox = app.outbox := by
  unfold T560App.historyLoaded
  dsimp only
  split
  · rfl
  · split
    · rfl
    · split_ifs <;> rfl

theorem chatError_outbox (payload : Option Value) :
    (app.chatError rt d payload).outbox = app.outbox.step .ended := by
  unfold T560App.chatError
  dsimp only
  split <;> rfl

theorem chatDone_outbox (h : app.Ready rt) :
    (app.chatDone rt d).outbox = app.outbox.step (.done app.connected) := by
  unfold T560App.chatDone
  dsimp only [T560App.resetLiveProgressState]
  cases hqueue : app.chatQueue with
  | nil => simp [T560App.outbox, Outbox.step, hqueue]
  | cons next rest =>
    have hnext : Sendable rt next := h next (by rw [hqueue]; exact List.mem_cons_self ..)
    dsimp only
    rw [sendMessage_next rfl hnext]
    cases hconnected : app.connected <;> simp [T560App.outbox, Outbox.step, Outbox.post, hqueue]

/-- The panel does with its messages what the sender does. -/
theorem step_outbox (h : app.Ready rt) (e : PanelEvent) :
    (app.step rt e).outbox = app.outbox.step (app.outboxEvent rt e) := by
  cases e with
  | submit d text => exact sendMessage_outbox app d text
  | abort =>
    cases hconnected : app.connected <;>
      simp [T560App.step, T560App.outboxEvent, T560App.abortChat, hconnected, T560App.outbox, Outbox.step, Request.text?]
  | gatewayEvent d event payload =>
    dsimp only [T560App.step, T560App.handleGatewayEvent, T560App.outboxEvent]
    by_cases hchat : event = "chat"
    · have hother : ∀ name ∈ ["chat.sending", "chat.done", "chat.error"], ¬ event = name := by
        rw [hchat]
        decide
      rw [if_pos hchat, if_neg (hother _ (by simp)), if_neg (hother _ (by simp)), if_neg (hother _ (by simp))]
      exact handleChatEvent_outbox payload
    rw [if_neg hchat]
    by_cases hsending : event = "chat.sending"
    · rw [if_pos hsending, if_pos hsending]
      rfl
    rw [if_neg hsending, if_neg hsending]
    by_cases hdone : event = "chat.done"
    · rw [if_pos hdone, if_pos hdone]
      exact chatDone_outbox h
    rw [if_neg hdone, if_neg hdone]
    by_cases hagent : event = "agent.event"
    · have herror : ¬ event = "chat.error" := by
        rw [hagent]
        decide
      rw [if_pos hagent, if_neg herror]
      cases summarizeAgentEvent payload with
      | none => rfl
      | some line => exact pushLiveProgress_outbox line
    rw [if_neg hagent]
    split_ifs
    · exact chatError_outbox payload
    · rfl
  | historyLoaded d payload => exact historyLoaded_outbox payload
  | newChatSession d => rfl
  | clearChatView => rfl
  | removeQueue idx => rfl
  | attach dataUrl => rfl
  | removeAttachment idx => rfl
  | sendFailed message => rfl
  | connection connected => rfl

/-- The events of the queue in a run of the panel. -/
def T560App.trace (rt : Runtime) : T560App → List PanelEvent → List (Outbox.Event String)
  | _, [] => []
  | app, e :: events => app.outboxEvent rt e :: (app.step rt e).trace rt events

theorem step_ready (h : app.Ready rt) (e : PanelEvent) : (app.step rt e).Ready rt := by
  intro t ht
  have hstep : t ∈ (app.outbox.step (app.outboxEvent rt e)).queue := by
    rw [← step_outbox h e]
    exact ht
  rcases Outbox.mem_queue_step hstep with hold | ⟨online, hsubmit⟩
  · exact h t hold
  · cases e with
    | submit d text =>
      dsimp only [T560App.outboxEvent] at hsubmit
      split_ifs at hsubmit with hblank hnew hstop
      obtain ⟨-, rfl⟩ := Outbox.Event.submit.inj hsubmit
      exact ⟨Js.trim_trim text, hblank, by simpa using hnew, by simpa using hstop⟩
    | abort =>
      dsimp only [T560App.outboxEvent] at hsubmit
      split_ifs at hsubmit
    | gatewayEvent d event payload =>
      dsimp only [T560App.outboxEvent] at hsubmit
      split_ifs at hsubmit
    | _ => cases hsubmit

theorem run_outbox (h : app.Ready rt) (events : List PanelEvent) :
    (EventRun.run (T560App.step rt) app events).outbox = EventRun.run Outbox.step app.outbox (app.trace rt events) := by
  induction events generalizing app with
  | nil => rfl
  | cons e events ih =>
    have hrest := ih (step_ready h e)
    rw [step_outbox h e] at hrest
    exact hrest

/-- The event ends the wait for a reply, when the panel is connected. -/
def PanelEvent.Releases (rt : Runtime) : PanelEvent → Bool
  | .submit _ text => isCommand rt "/stop" (trim text)
  | .abort | .sendFailed _ => true
  | .gatewayEvent _ event _ => event = "chat.done" || event = "chat.error"
  | _ => false

theorem releases_of_outboxEvent {e : PanelEvent} (h : (app.outboxEvent rt e).Releases = true) :
    e.Releases rt = true := by
  cases e with
  | submit d text =>
    dsimp only [T560App.outboxEvent] at h
    split_ifs at h with _ _ hstop
    · exact absurd h Bool.false_ne_true
    · exact absurd h Bool.false_ne_true
    · exact hstop
    · exact hstop
    · exact absurd h Bool.false_ne_true
  | abort => rfl
  | sendFailed message => rfl
  | gatewayEvent d event payload =>
    dsimp only [T560App.outboxEvent] at h
    split_ifs at h with _ hdone herror
    · exact absurd h Bool.false_ne_true
    · simp [PanelEvent.Releases, hdone]
    · simp [PanelEvent.Releases, herror]
    · exact absurd h Bool.false_ne_true
  | _ => exact absurd h Bool.false_ne_true

theorem countP_trace (events : List PanelEvent) :
    (app.trace rt events).countP Outbox.Event.Releases ≤ events.countP (PanelEvent.Releases rt) := by
  induction events generalizing app with
  | nil => exact Nat.le_refl _
  | cons e events ih =>
    have hrest := @ih (app.step rt e)
    rw [T560App.trace, List.countP_cons, List.countP_cons]
    by_cases he : (app.outboxEvent rt e).Releases = true
    · rw [if_pos he, if_pos (releases_of_outboxEvent he)]
      omega
    · rw [if_neg he]
      omega

end Refinement

section Runs

variable (rt : Runtime) {app : T560App}

/-- A panel that was just opened, with the texts that its storage kept in the queue. -/
structure T560App.Opened (app : T560App) : Prop where
  idle : app.chatSending = false
  nothingAsked : app.requests = []
  nothingTaken : app.taken = []
  ready : app.Ready rt

/-- In every run of the panel each text that was typed, or was kept in the queue, is sent at most once,
and every text but the first waits for an end of the wait before it. -/
theorem panel_sends_once (hopened : app.Opened rt) (events : List PanelEvent) :
    let after := (EventRun.run (T560App.step rt) app events).outbox
    (after.posted ++ after.queue).Subperm (app.chatQueue ++ after.taken) ∧
      after.posted.length ≤ events.countP (PanelEvent.Releases rt) + after.busy.toNat := by
  have hrun := run_outbox hopened.ready events
  have hstart : app.outbox = ⟨false, app.chatQueue, [], []⟩ := by
    rw [T560App.outbox, hopened.idle, hopened.nothingAsked, hopened.nothingTaken]
    rfl
  dsimp only
  rw [hrun, hstart]
  refine ⟨Outbox.run_subperm (by rw [List.nil_append, List.append_nil]) _, ?_⟩
  have hlength := Outbox.run_length ⟨false, app.chatQueue, [], []⟩ (app.trace rt events)
  have hcount := @countP_trace rt app events
  simp only [List.length_nil, Bool.toNat_false] at hlength
  omega

/-- A panel without a past. -/
def freshPanel : T560App := ⟨true, "s", [], false, false, [], [], "", {}, [], []⟩

theorem freshPanel_opened : freshPanel.Opened rt := ⟨rfl, rfl, rfl, fun _ ht => absurd ht List.not_mem_nil⟩

def sampleDraw : Draw := ⟨0, "u", fun _ => "u", "k"⟩

/-- A text that waits for the reply to the one before it, which comes. -/
def twoTexts : List PanelEvent :=
  [.submit sampleDraw "a", .submit sampleDraw " b ", .gatewayEvent sampleDraw "chat.done" none]

theorem panel_sends_once_two :
    let after := (EventRun.run (T560App.step Js.asciiRuntime) freshPanel twoTexts).outbox
    after.posted = ["a", "b"] ∧ (after.posted ++ after.queue).Subperm after.taken := by
  exact ⟨by decide, (panel_sends_once Js.asciiRuntime (freshPanel_opened _) twoTexts).1⟩

/-- No text that waits is taken out, and none is left waiting without a reply that is awaited. -/
def T560App.Smooth (app : T560App) (e : PanelEvent) : Prop := app.outbox.Smooth (app.outboxEvent rt e)

/-- In a smooth run from an empty queue the texts are sent in the order in which they were typed, and
those that are not sent yet wait in this order. -/
theorem panel_sends_in_order (hopened : app.Opened rt) (hqueue : app.chatQueue = []) {events : List PanelEvent}
    (h : EventRun.Allowed (T560App.step rt) (T560App.Smooth rt) app events) :
    let after := (EventRun.run (T560App.step rt) app events).outbox
    after.posted ++ after.queue = after.taken ∧ (after.queue ≠ [] → after.busy = true) := by
  have hstart : Outbox.InOrder app.outbox := by
    refine ⟨?_, fun hne => absurd hqueue hne⟩
    rw [T560App.outbox, hqueue, hopened.nothingAsked, hopened.nothingTaken]
    rfl
  have hstep : ∀ (app : T560App) (e : PanelEvent), app.Smooth rt e →
      app.Ready rt ∧ Outbox.InOrder app.outbox →
        (app.step rt e).Ready rt ∧ Outbox.InOrder (app.step rt e).outbox := by
    intro app e hok happ
    refine ⟨step_ready happ.1 e, ?_⟩
    rw [step_outbox happ.1 e]
    exact happ.2.step hok
  have hkeeps := EventRun.run_keeps hstep h ⟨hopened.ready, hstart⟩
  exact ⟨hkeeps.2.all, hkeeps.2.waits⟩

theorem panel_sends_in_order_two :
    let after := (EventRun.run (T560App.step Js.asciiRuntime) freshPanel twoTexts).outbox
    after.posted.length = 2 ∧ after.posted ++ after.queue = after.taken := by
  refine ⟨by decide, (panel_sends_in_order Js.asciiRuntime (freshPanel_opened _) rfl ?_).1⟩
  exact ⟨trivial, trivial, Or.inl rfl, trivial⟩

/-- Texts are taken out of the queue. -/
def PanelEvent.Drops : PanelEvent → Bool
  | .submit _ text => isCommand rt "/new" (trim text)
  | .newChatSession _ | .clearChatView | .removeQueue _ => true
  | _ => false

theorem drops_of_outboxEvent {e : PanelEvent} (h : (app.outboxEvent rt e).Drops = true) : e.Drops rt = true := by
  cases e with
  | submit d text =>
    dsimp only [T560App.outboxEvent] at h
    split_ifs at h with _ hnew
    · exact absurd h Bool.false_ne_true
    · exact hnew
    · exact absurd h Bool.false_ne_true
    · exact absurd h Bool.false_ne_true
    · exact absurd h Bool.false_ne_true
  | newChatSession d => rfl
  | clearChatView => rfl
  | removeQueue idx => rfl
  | abort =>
    dsimp only [T560App.outboxEvent] at h
    split_ifs at h <;> exact absurd h Bool.false_ne_true
  | gatewayEvent d event payload =>
    dsimp only [T560App.outboxEvent] at h
    split_ifs at h <;> exact absurd h Bool.false_ne_true
  | _ => exact absurd h Bool.false_ne_true

/-- While a reply is awaited, every text that is typed waits, over any loss and return of the connection,
until an event of the gateway or the user ends the wait. -/
theorem panel_waits_for_end (hready : app.Ready rt) (hsending : app.chatSending = true) {events : List PanelEvent}
    (hevents : ∀ e ∈ events, e.Releases rt = false ∧ e.Drops rt = false) :
    Outbox.Waits app.outbox (EventRun.run (T560App.step rt) app events).outbox := by
  have hkeeps : (EventRun.run (T560App.step rt) app events).Ready rt ∧
      Outbox.Waits app.outbox (EventRun.run (T560App.step rt) app events).outbox := by
    induction events using List.reverseRecOn with
    | nil => exact ⟨hready, hsending, rfl, [], by simp, by simp⟩
    | append_singleton events e ih =>
      obtain ⟨hrun, hwaits⟩ := ih fun e he => hevents e (List.mem_append_left _ he)
      obtain ⟨hnot, hkept⟩ := hevents e (by simp)
      have hreleases := mt (@releases_of_outboxEvent rt (EventRun.run (T560App.step rt) app events) e)
        (by rw [hnot]; exact Bool.false_ne_true)
      have hdrops := mt (@drops_of_outboxEvent rt (EventRun.run (T560App.step rt) app events) e)
        (by rw [hkept]; exact Bool.false_ne_true)
      rw [EventRun.run_snoc]
      refine ⟨step_ready hrun e, ?_⟩
      rw [step_outbox hrun e]
      exact hwaits.step (Bool.not_eq_true _ ▸ hreleases) (Bool.not_eq_true _ ▸ hdrops)
  exact hkeeps.2

/-- A connection that is lost behind the acknowledgement of a message, and comes back. -/
theorem panel_waits_for_end_reconnected :
    let sending : T560App := { freshPanel with chatSending := true }
    let after := (EventRun.run (T560App.step Js.asciiRuntime) sending
      [.connection false, .connection true, .submit sampleDraw "b"]).outbox
    after.queue = ["b"] ∧ after.posted = [] ∧ after.busy = true := by
  have h := @panel_waits_for_end Js.asciiRuntime { freshPanel with chatSending := true }
    (fun _ ht => absurd ht List.not_mem_nil) rfl [.connection false, .connection true, .submit sampleDraw "b"]
    (by decide)
  exact ⟨by decide, h.2.1, h.1⟩

end Runs

end T560.Panel
