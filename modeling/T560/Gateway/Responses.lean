import T560.Foundation.EventRun
import T560.Gateway.Server

/-!
# What the server answers

Every request that can be answered gets one response, every message handed to the gateway one
reply, and every `chat.sending` one `chat.done`, in whatever order the frames of a client arrive and
its handlers go on. A socket that closes loses answers, and gets none twice.
-/

namespace T560.Gateway

open Js (Value)

section Counts

def respondsTo (id : String) (frame : WsFrame) : Bool := frame.type = .res ∧ frame.id = some id

/-- A request with the id. The message of a `chat.send` has to be a text, or missing: nothing answers
any other. -/
def answerable (id : String) (frame : WsFrame) : Bool :=
  (requestOf frame).any fun request =>
    request.2 = id && (request.1 ≠ "chat.send" || (sendText frame.params).isSome)

def isAbort (frame : WsFrame) : Bool := (requestOf frame).any fun request => request.1 = "chat.abort"

def isEvent (event : String) (frame : WsFrame) : Bool := frame.type = .event ∧ frame.event = some event

/-- A reply of the gateway, not a message that was injected. -/
def isReply (frame : WsFrame) : Bool :=
  isEvent "chat" frame ∧ param frame.payload "injected" = none

def Stage.isReplying : Stage → Bool
  | .replying => true
  | _ => false

def Handler.isReplying (h : Handler) : Bool := h.stage.isReplying

def Handler.owes (id : String) (h : Handler) : Bool := h.id = id && !h.isReplying

/-- What new frames and new handlers bring, for the requests that they come from. -/
structure Brings (frames : List WsFrame) (handlers : List Handler) (requests : String → Nat)
    (messages aborts : Nat) : Prop where
  responses : ∀ id, frames.countP (respondsTo id) + handlers.countP (Handler.owes id) = requests id
  replies : frames.countP isReply + handlers.countP Handler.isReplying = messages
  done : frames.countP (isEvent "chat.done") + handlers.countP Handler.isReplying =
    frames.countP (isEvent "chat.sending") + aborts

end Counts

section Frames
variable {env : ServerEnv} {c : Connection}

@[simp] theorem owes_mk (x id : String) (stage : Stage) :
    Handler.owes x ⟨id, stage⟩ = (decide (id = x) && !stage.isReplying) := rfl

@[simp] theorem isReplying_mk (id : String) (stage : Stage) :
    Handler.isReplying ⟨id, stage⟩ = stage.isReplying := rfl

@[simp] theorem respondsTo_responseFrame (x id : String) (ok : Bool) (payload : Option Value)
    (error : Option WsError) : respondsTo x (responseFrame id ok payload error) = decide (id = x) := by
  simp [respondsTo, responseFrame]

@[simp] theorem respondsTo_eventFrame (x event : String) (payload : Option Value) :
    respondsTo x (eventFrame event payload) = false := by
  simp [respondsTo, eventFrame]

@[simp] theorem isEvent_responseFrame (event id : String) (ok : Bool) (payload : Option Value)
    (error : Option WsError) : isEvent event (responseFrame id ok payload error) = false := by
  simp [isEvent, responseFrame]

@[simp] theorem isEvent_eventFrame (event other : String) (payload : Option Value) :
    isEvent event (eventFrame other payload) = decide (other = event) := by
  simp [isEvent, eventFrame]

@[simp] theorem isReply_responseFrame (id : String) (ok : Bool) (payload : Option Value)
    (error : Option WsError) : isReply (responseFrame id ok payload error) = false := by
  simp [isReply]

@[simp] theorem isReply_eventFrame (event : String) (payload : Option Value) :
    isReply (eventFrame event payload) = decide (event = "chat" ∧ param payload "injected" = none) := by
  simp [isReply, eventFrame, isEvent]

theorem switchTo_eq (env : ServerEnv) (c : Connection) (params : Option Value) :
    ∃ sessionKey bound, c.switchTo env params = { c with sessionKey, bound } := by
  unfold Connection.switchTo
  split
  · exact ⟨_, _, rfl⟩
  · exact ⟨_, _, rfl⟩

/-- What the handling of a frame brings, up to the first wait. -/
def Handled (c d : Connection) (frame : WsFrame) : Prop :=
  ∃ sessionKey bound started frames messages,
    d = { c with
      sessionKey, bound
      handlers := c.handlers ++ started
      sent := c.sent ++ frames
      handled := c.handled ++ messages } ∧
    Brings frames started (fun id => if answerable id frame then 1 else 0) messages.length
      (if isAbort frame then 1 else 0)

variable {frame : WsFrame} {id : String}

/-- A frame that is answered at once, by an error or an acknowledgement. -/
theorem handled_fails (hopen : c.isOpen = true) (hans : ∀ x, answerable x frame = decide (id = x))
    (habort : isAbort frame = false) (sessionKey : SessionKey) (bound : Option String) (code message : String) :
    Handled c ({ c with sessionKey, bound }.fails id code message) frame := by
  refine ⟨sessionKey, bound, [], [responseFrame id false none (some ⟨code, message⟩)], [], ?_, ?_, ?_, ?_⟩
  · simp [Connection.fails, Connection.sendWsResponse, Connection.sendWsFrame, hopen]
  · intro x
    by_cases hx : id = x <;> simp [hans, hx]
  · simp
  · simp [habort]

/-- A frame whose handler waits before it answers. -/
theorem handled_waits (hans : ∀ x, answerable x frame = decide (id = x)) (habort : isAbort frame = false)
    (sessionKey : SessionKey) (bound : Option String) {stage : Stage}
    (hstage : stage.isReplying = false) :
    Handled c ({ c with sessionKey, bound }.start id stage) frame := by
  refine ⟨sessionKey, bound, [⟨id, stage⟩], [], [], ?_, ?_, ?_, ?_⟩
  · simp [Connection.start]
  · intro x
    by_cases hx : id = x <;> simp [hstage, hans, hx]
  · simp [hstage]
  · simp [hstage, habort]

theorem handled_chatSend (hopen : c.isOpen = true)
    (hans : ∀ x, answerable x frame = (decide (id = x) && (sendText frame.params).isSome))
    (habort : isAbort frame = false) : Handled c (c.chatSend env id frame.params) frame := by
  unfold Connection.chatSend
  cases htext : sendText frame.params with
  | none =>
    have hnone : ∀ x, answerable x frame = false := fun x => by simp [hans, htext]
    exact ⟨c.sessionKey, c.bound, [], [], [], by simp, fun x => by simp [hnone],
      by simp, by simp [habort]⟩
  | some message =>
    have hans : ∀ x, answerable x frame = decide (id = x) := fun x => by simp [hans, htext]
    dsimp only
    split
    · exact handled_fails hopen hans habort c.sessionKey c.bound _ _
    · obtain ⟨sessionKey, bound, hswitch⟩ := switchTo_eq env c frame.params
      have hsending : (({ c with sessionKey, bound }.sendWsResponse id true).sendWsEvent "chat.sending") =
          { c with
            sessionKey, bound
            sent := c.sent ++ [responseFrame id true none none, eventFrame "chat.sending" none] } := by
        simp [Connection.sendWsResponse, Connection.sendWsEvent, Connection.sendWsFrame, hopen]
      rw [hswitch, hsending]
      split
      · refine ⟨sessionKey, bound, [], [responseFrame id true none none, eventFrame "chat.sending" none,
          eventFrame "chat.done" none], [], ?_, ?_, ?_, ?_⟩
        · simp [Connection.sendWsEvent, Connection.sendWsFrame, hopen]
        · intro x
          by_cases hx : id = x <;> simp [hans, hx]
        · simp
        · simp [habort]
      · refine ⟨sessionKey, bound, [⟨id, .replying⟩],
          [responseFrame id true none none, eventFrame "chat.sending" none],
          [inboundMessage sessionKey.text message], ?_, ?_, ?_, ?_⟩
        · rfl
        · intro x
          by_cases hx : id = x <;> simp [Stage.isReplying, hans, hx]
        · simp [Stage.isReplying]
        · simp [Stage.isReplying, habort]

theorem handled_chatHistory (hopen : c.isOpen = true)
    (hans : ∀ x, answerable x frame = decide (id = x)) (habort : isAbort frame = false) :
    Handled c (c.chatHistory env id frame.params) frame := by
  unfold Connection.chatHistory
  obtain ⟨sessionKey, bound, hswitch⟩ := switchTo_eq env c frame.params
  rw [hswitch]
  dsimp only
  split
  · exact handled_waits hans habort _ _ rfl
  · exact handled_fails hopen hans habort _ _ _ _

theorem handled_chatInject (hopen : c.isOpen = true)
    (hans : ∀ x, answerable x frame = decide (id = x)) (habort : isAbort frame = false) :
    Handled c (c.chatInject env id frame.params) frame := by
  unfold Connection.chatInject
  split
  · exact handled_fails hopen hans habort c.sessionKey c.bound _ _
  · split
    · exact handled_fails hopen hans habort c.sessionKey c.bound _ _
    · obtain ⟨sessionKey, bound, hswitch⟩ := switchTo_eq env c frame.params
      rw [hswitch]
      exact handled_waits hans habort _ _ rfl

theorem handled_chatAbort (hopen : c.isOpen = true)
    (hans : ∀ x, answerable x frame = decide (id = x)) (habort : isAbort frame = true) :
    Handled c ((c.sendWsResponse id true).sendWsEvent "chat.done") frame := by
  refine ⟨c.sessionKey, c.bound, [], [responseFrame id true none none, eventFrame "chat.done" none], [],
    ?_, ?_, ?_, ?_⟩
  · simp [Connection.sendWsResponse, Connection.sendWsEvent, Connection.sendWsFrame, hopen]
  · intro x
    by_cases hx : id = x <;> simp [hans, hx]
  · simp
  · simp [habort]

/-- A request is answered or starts a handler; any other frame does nothing. -/
theorem handled_message (hopen : c.isOpen = true) (frame : WsFrame) :
    Handled c (c.handleWsMessage env frame) frame := by
  unfold Connection.handleWsMessage
  cases hreq : requestOf frame with
  | none =>
    have hnone : ∀ x, answerable x frame = false := fun x => by simp [answerable, hreq]
    exact ⟨c.sessionKey, c.bound, [], [], [], by simp, fun x => by simp [hnone], by simp,
      by simp [isAbort, hreq]⟩
  | some request =>
    obtain ⟨method, id⟩ := request
    have hans : ∀ x, answerable x frame =
        (decide (id = x) && (method ≠ "chat.send" || (sendText frame.params).isSome)) := fun x => by
      simp [answerable, hreq]
    have habort : isAbort frame = decide (method = "chat.abort") := by simp [isAbort, hreq]
    dsimp only
    split
    · next h =>
      exact handled_waits (fun x => by simp [hans, h]) (by simp [habort, h]) c.sessionKey c.bound rfl
    · split
      · next h => exact handled_chatSend hopen (fun x => by simp [hans, h]) (by simp [habort, h])
      · next hsend =>
        have hans : ∀ x, answerable x frame = decide (id = x) := fun x => by simp [hans, hsend]
        split
        · next h => exact handled_chatHistory hopen hans (by simp [habort, h])
        · split
          · next h => exact handled_chatInject hopen hans (by simp [habort, h])
          · split
            · next h => exact handled_chatAbort hopen hans (by simp [habort, h])
            · next h => exact handled_fails hopen hans (by simp [habort, h]) c.sessionKey c.bound _ _

/-- The frames that go out, if the socket is open. -/
def Connection.sends (c : Connection) (frames : List WsFrame) : Connection :=
  { c with sent := c.sent ++ if c.isOpen then frames else [] }

theorem sends_nil (c : Connection) : c.sends [] = c := by simp [Connection.sends]

theorem sends_sendWsFrame (c : Connection) (frames : List WsFrame) (frame : WsFrame) :
    (c.sends frames).sendWsFrame frame = c.sends (frames ++ [frame]) := by
  cases h : c.isOpen <;> simp [Connection.sends, Connection.sendWsFrame, h]

theorem sendWsFrame_eq (c : Connection) (frame : WsFrame) : c.sendWsFrame frame = c.sends [frame] := by
  have h := sends_sendWsFrame c [] frame
  rwa [sends_nil] at h

/-- The handler takes its next wait, or ends with what it owed. -/
def WentOn (c : Connection) (id : String) (stage : Stage) (result : Connection × Option Stage) : Prop :=
  ∃ frames, result.1 = c.sends frames ∧
    Brings frames (result.2.toList.map (Handler.mk id))
      (fun x => if Handler.owes x ⟨id, stage⟩ then 1 else 0)
      (if stage.isReplying then 1 else 0) (if stage.isReplying then 1 else 0)

/-- A handler that is not about a reply ends with its response, and maybe a message that it injected. -/
theorem wentOn_response {stage : Stage} (hstage : stage.isReplying = false) (ok : Bool)
    (payload : Option Value) (error : Option WsError) :
    WentOn c id stage (c.sendWsResponse id ok payload error, none) := by
  refine ⟨[responseFrame id ok payload error], sendWsFrame_eq _ _, fun x => ?_, ?_, ?_⟩
  · by_cases hx : id = x <;> simp [hstage, hx]
  · simp [hstage]
  · simp [hstage]

theorem wentOn_waits {stage next : Stage} (hstage : stage.isReplying = false)
    (hnext : next.isReplying = false) : WentOn c id stage (c, some next) := by
  refine ⟨[], (sends_nil c).symm, fun x => ?_, ?_, ?_⟩
  · simp [hnext, hstage]
  · simp [hnext, hstage]
  · simp [hnext, hstage]

theorem wentOn_reply (payload : Value) (hpayload : param (some payload) "injected" = none) :
    WentOn c id .replying
      ((c.sendWsEvent "chat" (some payload)).sendWsEvent "chat.done", none) := by
  refine ⟨[eventFrame "chat" (some payload), eventFrame "chat.done" none], ?_, fun x => ?_, ?_, ?_⟩
  · simp only [Connection.sendWsEvent, sendWsFrame_eq c, sends_sendWsFrame, List.singleton_append]
  · simp [Stage.isReplying]
  · simp [Stage.isReplying, hpayload]
  · simp [Stage.isReplying]

theorem wentOn_injected {stage : Stage} (hstage : stage.isReplying = false) (ok : Bool)
    (payload : Option Value) (message : Value) (hmessage : param (some message) "injected" ≠ none) :
    WentOn c id stage ((c.sendWsResponse id ok payload).sendWsEvent "chat" (some message), none) := by
  refine ⟨[responseFrame id ok payload none, eventFrame "chat" (some message)], ?_, fun x => ?_, ?_, ?_⟩
  · simp only [Connection.sendWsEvent, Connection.sendWsResponse, sendWsFrame_eq c, sends_sendWsFrame,
      List.singleton_append]
  · by_cases hx : id = x <;> simp [hstage, hx]
  · simp [hstage, hmessage]
  · simp [hstage]

theorem goOn_wentOn (env : ServerEnv) (c : Connection) (m : Moment) (id : String) (stage : Stage) :
    WentOn c id stage (c.goOn env m id stage) := by
  cases stage with
  | connecting =>
    dsimp only [Connection.goOn]
    split <;> exact wentOn_response rfl _ _ _
  | replying => exact wentOn_reply _ rfl
  | loadingHistory key limit =>
    dsimp only [Connection.goOn]
    split
    · exact wentOn_waits rfl rfl
    · exact wentOn_response rfl _ _ _
  | answeringHistory messages => exact wentOn_response rfl _ _ _
  | loadingInject key message =>
    dsimp only [Connection.goOn]
    split
    · exact wentOn_waits rfl rfl
    · exact wentOn_response rfl _ _ _
  | savingInject key message history =>
    dsimp only [Connection.goOn]
    split
    · exact wentOn_injected rfl _ _ _ nofun
    · exact wentOn_response rfl _ _ _

end Frames

section Runs
variable {env : ServerEnv} {c : Connection}

/-- What has been answered, and what a handler still owes, beside what was asked. -/
structure Tallies (R : Nat → Nat → Prop) (c : Connection) : Prop where
  responses : ∀ id, R (c.sent.countP (respondsTo id) + c.handlers.countP (Handler.owes id))
    (c.received.countP (answerable id))
  replies : R (c.sent.countP isReply + c.handlers.countP Handler.isReplying) c.handled.length
  done : R (c.sent.countP (isEvent "chat.done") + c.handlers.countP Handler.isReplying)
    (c.sent.countP (isEvent "chat.sending") + c.received.countP isAbort)

/-- Nothing is lost while the socket is open, and nothing is answered twice. -/
structure Balanced (c : Connection) : Prop where
  exact : c.isOpen = true → Tallies (· = ·) c
  bound : Tallies (· ≤ ·) c

theorem balanced_of_exact (h : Tallies (· = ·) c) : Balanced c :=
  ⟨fun _ => h, fun id => (h.responses id).le, h.replies.le, h.done.le⟩

theorem Balanced.close (h : Balanced c) : Balanced { c with isOpen := false, bound := none } :=
  ⟨nofun, h.bound.responses, h.bound.replies, h.bound.done⟩

/-- Events of the agent, and other frames that answer nothing. -/
theorem Balanced.sendWsEvent (h : Balanced c) {event : String} (payload : Option Value)
    (hchat : event ≠ "chat") (hdone : event ≠ "chat.done") (hsending : event ≠ "chat.sending") :
    Balanced (c.sendWsEvent event payload) := by
  cases hopen : c.isOpen with
  | false => simpa [Connection.sendWsEvent, Connection.sendWsFrame, hopen] using h
  | true =>
    obtain ⟨hresponses, hreplies, hdones⟩ := h.exact hopen
    apply balanced_of_exact
    simp only [Connection.sendWsEvent, Connection.sendWsFrame, hopen, if_true]
    refine ⟨fun id => ?_, ?_, ?_⟩
    · simpa [List.countP_append] using hresponses id
    · simpa [List.countP_append, hchat] using hreplies
    · simpa [List.countP_append, hdone, hsending] using hdones

theorem Balanced.frame (h : Balanced c) (hopen : c.isOpen = true) (frame : WsFrame) :
    Balanced ({ c with received := c.received ++ [frame] }.handleWsMessage env frame) := by
  obtain ⟨sessionKey, bound, started, frames, messages, heq, hbrings⟩ :=
    @handled_message env { c with received := c.received ++ [frame] } hopen frame
  obtain ⟨hresponses, hreplies, hdone⟩ := h.exact hopen
  rw [heq]
  apply balanced_of_exact
  refine ⟨fun id => ?_, ?_, ?_⟩
  · have hid := hresponses id
    have hnew := hbrings.responses id
    simp only [List.countP_append, List.countP_singleton]
    omega
  · have hnew := hbrings.replies
    simp only [List.countP_append, List.length_append]
    omega
  · have hnew := hbrings.done
    simp only [List.countP_append, List.countP_singleton]
    omega

/-- The handler at a place takes its next wait, or leaves. -/
theorem handlerGoesOn_cases (env : ServerEnv) (c : Connection) (i : Nat) (m : Moment) :
    c.handlerGoesOn env i m = c ∨
    ∃ before h after frames next, c.handlers = before ++ h :: after ∧
      c.handlerGoesOn env i m = { c.sends frames with handlers := before ++ next ++ after } ∧
      Brings frames next (fun x => if h.owes x then 1 else 0)
        (if h.isReplying then 1 else 0) (if h.isReplying then 1 else 0) := by
  unfold Connection.handlerGoesOn
  cases hi : c.handlers[i]? with
  | none => exact Or.inl rfl
  | some h =>
    right
    obtain ⟨hlt, hget⟩ := List.getElem?_eq_some_iff.mp hi
    have hsplit : c.handlers = c.handlers.take i ++ h :: c.handlers.drop (i + 1) := by
      rw [← hget, List.getElem_cons_drop, List.take_append_drop]
    obtain ⟨frames, hfst, hbrings⟩ := goOn_wentOn env c m h.id h.stage
    dsimp only
    generalize c.goOn env m h.id h.stage = result at hfst hbrings
    obtain ⟨d, next⟩ := result
    obtain rfl : d = c.sends frames := hfst
    refine ⟨_, h, _, frames, next.toList.map (Handler.mk h.id), hsplit, ?_, hbrings⟩
    cases next with
    | none =>
      simp only [Option.toList_none, List.map_nil, List.append_nil, Connection.sends,
        List.eraseIdx_eq_take_drop_succ]
    | some stage =>
      simp only [Option.toList_some, List.map_cons, List.map_nil, Connection.sends,
        List.set_eq_take_append_cons_drop, hlt, if_true, List.append_assoc, List.singleton_append]

theorem Balanced.goOn (h : Balanced c) (i : Nat) (m : Moment) : Balanced (c.handlerGoesOn env i m) := by
  rcases handlerGoesOn_cases env c i m with heq | ⟨before, handler, after, frames, next, hsplit, heq, hbrings⟩
  · rw [heq]
    exact h
  rw [heq]
  cases hopen : c.isOpen with
  | true =>
    obtain ⟨hresponses, hreplies, hdone⟩ := h.exact hopen
    apply balanced_of_exact
    refine ⟨fun id => ?_, ?_, ?_⟩
    · have hid := hresponses id
      have hnew := hbrings.responses id
      simp only [hsplit, Connection.sends, hopen, if_true, List.countP_append, List.countP_cons] at hid ⊢
      omega
    · have hnew := hbrings.replies
      simp only [hsplit, Connection.sends, hopen, if_true, List.countP_append, List.countP_cons] at hreplies ⊢
      omega
    · have hnew := hbrings.done
      simp only [hsplit, Connection.sends, hopen, if_true, List.countP_append, List.countP_cons] at hdone ⊢
      omega
  | false =>
    obtain ⟨hresponses, hreplies, hdone⟩ := h.bound
    refine ⟨fun ho => absurd ho (by simp [Connection.sends, hopen]), fun id => ?_, ?_, ?_⟩
    · have hid := hresponses id
      have hnew := hbrings.responses id
      simp only [hsplit, Connection.sends, hopen, List.countP_append, List.countP_cons] at hid ⊢
      simp only [Bool.false_eq_true, if_false, List.countP_nil]
      omega
    · have hnew := hbrings.replies
      simp only [hsplit, Connection.sends, hopen, List.countP_append, List.countP_cons] at hreplies ⊢
      simp only [Bool.false_eq_true, if_false, List.countP_nil]
      omega
    · have hnew := hbrings.replies
      simp only [hsplit, Connection.sends, hopen, List.countP_append, List.countP_cons] at hdone ⊢
      simp only [Bool.false_eq_true, if_false, List.countP_nil]
      omega

theorem balanced_accepted (key : String) : Balanced (.accepted key) :=
  balanced_of_exact ⟨fun _ => rfl, rfl, rfl⟩

theorem Balanced.step (h : Balanced c) (e : ServerEvent) : Balanced (c.step env e) := by
  cases e with
  | frame frame =>
    dsimp only [Connection.step]
    split
    · next hopen => exact h.frame hopen frame
    · exact h
  | goOn i m => exact h.goOn i m
  | agent e =>
    dsimp only [Connection.step]
    split
    · exact h.sendWsEvent _ (by decide) (by decide) (by decide)
    · exact h
  | close => exact h.close

end Runs

end T560.Gateway
