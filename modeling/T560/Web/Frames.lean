import T560.Js.Ascii
import T560.Provider.SessionTurns

/-!
# Frames of a WebSocket client

The dashboard handles every frame of a client as soon as it arrives. A handler takes its
session key from the client before it waits for a file, and names the key of its answer after
the wait; frames that arrive in between may have changed the key of the client.
-/

namespace T560.Web

open Js (Value Runtime JsError trim)
open Provider (injectMessage)
open Transcript (Message Files SessionEnv loadSession saveSessionMessages isRole isAssistant)

inductive Method where
  | chatSend
  | chatHistory
  | chatInject
  deriving DecidableEq

/-- A request frame; a parameter may be missing. -/
structure Frame where
  id : String
  method : Method
  message : Option String := none
  sessionKey : Option String := none
  limit : Option Value := none

structure HistoryEntry where
  role : String
  message : String
  timestamp : Js.Num

/-- An answer. The last text of an answer to `chat.history` is the key of the session its
messages were read from, that of an answer to `chat.inject` the key of the session the message
was saved to; neither is sent. -/
inductive Response where
  | acknowledged (id : String)
  | failed (id code : String)
  | history (id sessionKey : String) (messages : List HistoryEntry) (readFrom : String)
  | injected (id sessionKey savedTo : String)

/-- A handler that waits: for a file to be read or written, or for its turn to answer. -/
inductive Handler where
  | sending (id key : String)
  | loadHistory (id key : String) (limit : Nat)
  | answerHistory (id key : String) (messages : List HistoryEntry)
  | loadInject (id key message : String)
  | saveInject (id key : String) (history : List Message)
  | answerInject (id key : String)

structure Client where
  sessionKey : String
  files : Files
  handlers : List Handler := []
  sent : List Response := []

/-- The session files and the runtime. -/
structure FrameEnv extends SessionEnv where
  rt : Runtime

variable (env : FrameEnv)

def HEARTBEAT_MESSAGES : List String :=
  ["heartbeat", "heart beat", "heart-beat", "/heartbeat", "ping", "/ping", "healthcheck",
    "health check", "health-check", "/health"]

def isHeartbeatCheckMessage (value : String) : Bool :=
  HEARTBEAT_MESSAGES.contains (env.rt.toLowerCase (trim value))

section History

def normalizeHistoryLimit (value : Option Value) : Except JsError Nat := do
  match ← Value.number env.rt value with
  | .fin n => return (max 1 (min 200 ⌊n⌋)).toNat
  | _ => return 80

def blockText (block : Value) : String :=
  match Value.str? (block.get? "text") with
  | some text => text
  | none =>
    if block.get? "type" == some (.str "text") then
      (Value.str? (block.get? "content")).getD ""
    else ""

def extractTextContent : Option Value → String
  | some (.str text) => text
  | some (.arr blocks) => trim (String.intercalate "\n" ((blocks.map blockText).filter (· ≠ "")))
  | _ => ""

def historyEntry (now : ℚ) (entry : Message) : HistoryEntry where
  role := if isAssistant entry then "assistant" else "user"
  message := trim (extractTextContent (entry.get? "content"))
  timestamp := match entry.get? "timestamp" with
    | some (.num n) => n
    | _ => .fin now

/-- What `readWebchatHistory` makes of the messages of a session. -/
def readWebchatHistory (now : ℚ) (limit : Nat) (all : List Message) : List HistoryEntry :=
  let filtered := all.filter fun entry => isRole entry "user" || isRole entry "assistant"
  let tail := filtered.drop (filtered.length - limit)
  (tail.map (historyEntry now)).filter fun entry => trim entry.message ≠ ""

end History

def sessionIdOf (key : String) : String := "webchat:" ++ key

def Client.send (c : Client) (r : Response) : Client := { c with sent := c.sent ++ [r] }

def Client.start (c : Client) (h : Handler) : Client := { c with handlers := c.handlers ++ [h] }

def Frame.text (f : Frame) : String := trim (f.message.getD "")

/-- The key the client has once the frame arrived, when the frame sets it. -/
def Frame.switchesTo (f : Frame) : Option String :=
  match f.method with
  | .chatHistory => f.sessionKey.filter (· ≠ "")
  | .chatSend | .chatInject => if f.text = "" then none else f.sessionKey.filter (· ≠ "")

def Client.switch (c : Client) (f : Frame) : Client :=
  { c with sessionKey := f.switchesTo.getD c.sessionKey }

/-- `handleWsMessage` up to its first wait. -/
def receive (c : Client) (f : Frame) : Client :=
  match f.method with
  | .chatSend =>
    if f.text = "" then c.send (.failed f.id "missing_message")
    else
      let c := (c.switch f).send (.acknowledged f.id)
      if isHeartbeatCheckMessage env f.text then c else c.start (.sending f.id c.sessionKey)
  | .chatHistory =>
    let c := c.switch f
    match normalizeHistoryLimit env f.limit with
    | .error _ => c.send (.failed f.id "history_failed")
    | .ok limit => c.start (.loadHistory f.id c.sessionKey limit)
  | .chatInject =>
    if f.text = "" then c.send (.failed f.id "missing_message")
    else
      let c := c.switch f
      c.start (.loadInject f.id c.sessionKey f.text)

/-- What a handler does when its wait is over, and the wait that follows. -/
def resume (now : ℚ) (c : Client) : Handler → Client × Option Handler
  | .sending _ _ => (c, none)
  | .loadHistory id key limit =>
    (c, some (.answerHistory id key
      (readWebchatHistory now limit (loadSession env.toSessionEnv (sessionIdOf key) c.files))))
  | .answerHistory id key messages => (c.send (.history id c.sessionKey messages key), none)
  | .loadInject id key message =>
    (c, some (.saveInject id key
      (loadSession env.toSessionEnv (sessionIdOf key) c.files ++ [injectMessage message now])))
  | .saveInject id key history =>
    ({ c with files := saveSessionMessages env.toSessionEnv (sessionIdOf key) history c.files },
      some (.answerInject id key))
  | .answerInject id key => (c.send (.injected id c.sessionKey key), none)

/-- The answer of a handler whose wait ended in an exception. -/
def Handler.failure : Handler → Option Response
  | .sending _ _ => none
  | .loadHistory id _ _ | .answerHistory id _ _ => some (.failed id "history_failed")
  | .loadInject id _ _ | .saveInject id _ _ | .answerInject id _ => some (.failed id "inject_failed")

/-- A frame arrives, the wait of a handler ends well or badly, or someone else writes files. -/
inductive Action where
  | arrive (f : Frame)
  | resume (h : Handler)
  | fail (h : Handler)
  | foreign

inductive Step : Client → Action → Client → Prop
  | arrive {c : Client} (f : Frame) : Step c (.arrive f) (receive env c f)
  | resume {c : Client} {before after : List Handler} {h : Handler} (now : ℚ)
      (hh : c.handlers = before ++ h :: after) :
      Step c (.resume h) { (resume env now c h).1 with
        handlers := before ++ (resume env now c h).2.toList ++ after }
  | fail {c : Client} {before after : List Handler} {h : Handler}
      (hh : c.handlers = before ++ h :: after) :
      Step c (.fail h) { c with
        handlers := before ++ after
        sent := c.sent ++ h.failure.toList }
  | foreign {c : Client} (files : Files) : Step c .foreign { c with files := files }

/-- The runs whose steps all meet a condition on the client before the step. -/
inductive Run (ok : Client → Action → Prop) : Client → List Action → Client → Prop
  | refl (c : Client) : Run ok c [] c
  | step {c d e : Client} {actions : List Action} {a : Action} (hr : Run ok c actions d)
      (hok : ok d a) (hs : Step env d a e) : Run ok c (actions ++ [a]) e

/-- The answer names the session it is about. -/
def Response.Labelled : Response → Prop
  | .acknowledged _ | .failed _ _ => True
  | .history _ sessionKey _ readFrom => sessionKey = readFrom
  | .injected _ sessionKey savedTo => sessionKey = savedTo

/-- The session a handler will name in an answer. -/
def Handler.answersFor : Handler → Option String
  | .sending _ _ => none
  | .loadHistory _ key _ | .answerHistory _ key _ | .loadInject _ key _ | .saveInject _ key _
  | .answerInject _ key => some key

/-- No frame that sets another key arrives while an answer about a session is outstanding. -/
def KeyStays (c : Client) : Action → Prop
  | .arrive f => ∀ key, f.switchesTo = some key →
      ∀ h ∈ c.handlers, ∀ owed, h.answersFor = some owed → owed = key
  | _ => True

/-- What a client knows while keys stay: every outstanding answer is about its session. -/
structure Consistent (c : Client) : Prop where
  owed : ∀ h ∈ c.handlers, ∀ key, h.answersFor = some key → key = c.sessionKey
  labelled : ∀ r ∈ c.sent, r.Labelled

section Steps
variable {env}

/-- A frame sets the key, may start a handler for that key, and may be answered at once. -/
theorem receive_spec (env : FrameEnv) (c : Client) (f : Frame) :
    ∃ (started : Option Handler) (answered : Option Response),
      receive env c f = { c with
        sessionKey := f.switchesTo.getD c.sessionKey
        handlers := c.handlers ++ started.toList
        sent := c.sent ++ answered.toList } ∧
      (∀ h ∈ started, ∀ key, h.answersFor = some key → key = f.switchesTo.getD c.sessionKey) ∧
      ∀ r ∈ answered, r.Labelled := by
  have hlast : ∀ key h, Handler.answersFor h = some key →
      ∀ x ∈ some h, ∀ k, x.answersFor = some k → k = key := by
    rintro key h hh _ ⟨⟩ k hk
    rw [hh] at hk
    exact (Option.some.inj hk).symm
  cases hm : f.method with
  | chatSend =>
    by_cases ht : f.text = ""
    · refine ⟨none, some (.failed f.id "missing_message"), ?_, by simp, by simp [Response.Labelled]⟩
      simp [receive, hm, ht, Client.send, Frame.switchesTo]
    · by_cases hb : isHeartbeatCheckMessage env f.text = true
      · refine ⟨none, some (.acknowledged f.id), ?_, by simp, by simp [Response.Labelled]⟩
        simp [receive, hm, ht, hb, Client.send, Client.switch]
      · refine ⟨some (.sending f.id (c.switch f).sessionKey), some (.acknowledged f.id), ?_,
          by simp [Handler.answersFor], by simp [Response.Labelled]⟩
        simp [receive, hm, ht, hb, Client.send, Client.switch, Client.start]
  | chatHistory =>
    cases hl : normalizeHistoryLimit env f.limit with
    | error e =>
      refine ⟨none, some (.failed f.id "history_failed"), ?_, by simp, by simp [Response.Labelled]⟩
      simp [receive, hm, hl, Client.send, Client.switch]
    | ok n =>
      refine ⟨some (.loadHistory f.id (c.switch f).sessionKey n), none, ?_, hlast _ _ rfl, by simp⟩
      simp [receive, hm, hl, Client.switch, Client.start]
  | chatInject =>
    by_cases ht : f.text = ""
    · refine ⟨none, some (.failed f.id "missing_message"), ?_, by simp, by simp [Response.Labelled]⟩
      simp [receive, hm, ht, Client.send, Frame.switchesTo]
    · refine ⟨some (.loadInject f.id (c.switch f).sessionKey f.text), none, ?_, hlast _ _ rfl,
        by simp⟩
      simp [receive, hm, ht, Client.switch, Client.start]

/-- A handler keeps the key of its answer through its waits and answers under the key of the
client. -/
theorem resume_spec (env : FrameEnv) (now : ℚ) (c : Client) (h : Handler) :
    (resume env now c h).1.sessionKey = c.sessionKey ∧
      (∀ next ∈ (resume env now c h).2, next.answersFor = h.answersFor) ∧
      ∃ answered : Option Response, (resume env now c h).1.sent = c.sent ++ answered.toList ∧
        ((∀ key, h.answersFor = some key → key = c.sessionKey) → ∀ r ∈ answered, r.Labelled) := by
  cases h with
  | sending id key => exact ⟨rfl, by simp [resume], none, by simp [resume]⟩
  | loadHistory id key limit =>
    exact ⟨rfl, by simp [resume, Handler.answersFor], none, by simp [resume]⟩
  | answerHistory id key messages =>
    refine ⟨rfl, by simp [resume], some (.history id c.sessionKey messages key), rfl, ?_⟩
    rintro hkey _ ⟨⟩
    exact (hkey key rfl).symm
  | loadInject id key message =>
    exact ⟨rfl, by simp [resume, Handler.answersFor], none, by simp [resume]⟩
  | saveInject id key history =>
    exact ⟨rfl, by simp [resume, Handler.answersFor], none, by simp [resume]⟩
  | answerInject id key =>
    refine ⟨rfl, by simp [resume], some (.injected id c.sessionKey key), rfl, ?_⟩
    rintro hkey _ ⟨⟩
    exact (hkey key rfl).symm

theorem failure_labelled (h : Handler) : ∀ r ∈ h.failure, r.Labelled := by
  cases h <;> simp [Handler.failure, Response.Labelled]

theorem consistent_receive {c : Client} (hc : Consistent c) {f : Frame}
    (hok : KeyStays c (.arrive f)) : Consistent (receive env c f) := by
  obtain ⟨started, answered, heq, hstarted, hanswered⟩ := receive_spec env c f
  rw [heq]
  refine ⟨fun h hh key hkey => ?_, fun r hr => ?_⟩
  · rcases List.mem_append.mp hh with hh | hh
    · have howed := hc.owed h hh key hkey
      dsimp only
      cases hs : f.switchesTo with
      | none => exact howed
      | some new => exact hok new hs h hh key hkey
    · exact hstarted h (by simpa using hh) key hkey
  · rcases List.mem_append.mp hr with hr | hr
    · exact hc.labelled r hr
    · exact hanswered r (by simpa using hr)

theorem consistent_step {c d : Client} {a : Action} (h : Step env c a d) (hok : KeyStays c a)
    (hc : Consistent c) : Consistent d := by
  cases h with
  | arrive f => exact consistent_receive hc hok
  | @resume before after h now hh =>
    obtain ⟨hkey, hnext, answered, hsent, hlabel⟩ := resume_spec env now c h
    have howed : ∀ key, h.answersFor = some key → key = c.sessionKey := hc.owed h (by simp [hh])
    refine ⟨fun x hx key hx' => ?_, fun r hr => ?_⟩
    · simp only [List.mem_append] at hx
      dsimp only
      rw [hkey]
      rcases hx with (hx | hx) | hx
      · exact hc.owed x (by simp [hh, hx]) key hx'
      · rw [hnext x (by simpa using hx)] at hx'
        exact howed key hx'
      · exact hc.owed x (by simp [hh, hx]) key hx'
    · dsimp only at hr
      rw [hsent] at hr
      rcases List.mem_append.mp hr with hr | hr
      · exact hc.labelled r hr
      · exact hlabel howed r (by simpa using hr)
  | @fail before after h hh =>
    refine ⟨fun x hx key hx' => ?_, fun r hr => ?_⟩
    · have hmem : x ∈ c.handlers := by
        rw [hh]
        rcases List.mem_append.mp hx with hx | hx <;> simp [hx]
      exact hc.owed x hmem key hx'
    · rcases List.mem_append.mp hr with hr | hr
      · exact hc.labelled r hr
      · exact failure_labelled h r (by simpa using hr)
  | foreign files => exact ⟨hc.owed, hc.labelled⟩

theorem consistent_run {c d : Client} {actions : List Action} (hc : Consistent c)
    (h : Run env KeyStays c actions d) : Consistent d := by
  induction h with
  | refl => exact hc
  | step hr hok hs ih => exact consistent_step hs hok ih

end Steps

/-- A client that has just connected. -/
def connected (sessionKey : String) (files : Files) : Client := ⟨sessionKey, files, [], []⟩

/-- While keys stay, every answer names the session it is about. -/
theorem answers_labelled (env : FrameEnv) (sessionKey : String) (files : Files)
    (actions : List Action) (c : Client)
    (h : Run env KeyStays (connected sessionKey files) actions c) : ∀ r ∈ c.sent, r.Labelled :=
  (consistent_run ⟨by simp [connected], by simp [connected]⟩ h).labelled

section Histories

def historyOf (id key : String) : Frame := { id := id, method := .chatHistory, sessionKey := some key }

theorem Run.historyArrives {env : FrameEnv} {ok : Client → Action → Prop} {c : Client}
    {actions : List Action} {current : String} {files : Files} {handlers : List Handler}
    {sent : List Response} (h : Run env ok c actions ⟨current, files, handlers, sent⟩)
    (id key : String) (hkey : key ≠ "")
    (hok : ok ⟨current, files, handlers, sent⟩ (.arrive (historyOf id key))) :
    Run env ok c (actions ++ [.arrive (historyOf id key)])
      ⟨key, files, handlers ++ [.loadHistory id key 80], sent⟩ := by
  have hreceive : receive env ⟨current, files, handlers, sent⟩ (historyOf id key) =
      ⟨key, files, handlers ++ [.loadHistory id key 80], sent⟩ := by
    simp [receive, historyOf, normalizeHistoryLimit, Value.number, Client.switch, Client.start,
      Frame.switchesTo, Option.filter, hkey, Except.bind, bind, pure, Except.pure]
  rw [← hreceive]
  exact .step h hok (.arrive _)

/-- The oldest handler reads its history and later answers. -/
theorem Run.historyAnswered {env : FrameEnv} {ok : Client → Action → Prop} {c : Client}
    {actions : List Action} {current id key : String} {limit : Nat} {files : Files}
    {rest : List Handler} {sent : List Response}
    (h : Run env ok c actions ⟨current, files, .loadHistory id key limit :: rest, sent⟩)
    (hok : ∀ d handler, ok d (.resume handler)) :
    ∃ actions' messages, Run env ok c actions'
      ⟨current, files, rest, sent ++ [.history id current messages key]⟩ := by
  have hread := Run.step h (hok _ _) (.resume 0 (show _ = [] ++ _ :: rest from rfl))
  have hanswered := Run.step hread (hok _ _) (.resume 0 (show _ = [] ++ _ :: rest from rfl))
  exact ⟨_, _, hanswered⟩

theorem frameEnv_nonempty : Nonempty FrameEnv := by
  obtain ⟨env⟩ := Transcript.sessionEnv_nonempty
  exact ⟨⟨env, Js.asciiRuntime⟩⟩

/-- A history is read and answered before the client turns to another session. -/
theorem answers_labelled_in_sequence :
    ∃ (env : FrameEnv) (actions : List Action) (c : Client),
      Run env KeyStays (connected "x" fun _ => none) actions c ∧ c.sent.length = 1 ∧
        ∀ r ∈ c.sent, r.Labelled := by
  obtain ⟨env⟩ := frameEnv_nonempty
  have hfirst := Run.historyArrives (.refl (connected "x" fun _ => none) : Run env KeyStays _ [] _)
    "1" "a" (by decide) fun _ _ h hh => absurd hh (by simp)
  obtain ⟨_, _, hanswered⟩ := Run.historyAnswered hfirst fun _ _ => trivial
  have hsecond := hanswered.historyArrives "2" "b" (by decide)
    fun _ _ h hh => absurd hh (by simp)
  exact ⟨env, _, _, hsecond, rfl, answers_labelled env _ _ _ _ hsecond⟩

/-- A frame for session `b` arrives while the history of session `a` is read: the answer holds
messages of `a` under the key `b`. -/
theorem history_answered_under_other_key :
    ¬ ∀ (env : FrameEnv) (sessionKey : String) (files : Files) (actions : List Action) (c : Client),
      Run env (fun _ _ => True) (connected sessionKey files) actions c →
        ∀ r ∈ c.sent, r.Labelled := by
  intro h
  obtain ⟨env⟩ := frameEnv_nonempty
  have hfirst := Run.historyArrives
    (.refl (connected "x" fun _ => none) : Run env (fun _ _ => True) _ [] _)
    "1" "a" (by decide) trivial
  have hsecond := hfirst.historyArrives "2" "b" (by decide) trivial
  obtain ⟨_, messages, hanswered⟩ := Run.historyAnswered hsecond fun _ _ => trivial
  have hlabel : "b" = "a" :=
    h env _ _ _ _ hanswered (.history "1" "b" messages "a") (by simp)
  exact absurd hlabel (by decide)

end Histories

end T560.Web
