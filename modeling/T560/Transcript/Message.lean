import T560.Js.Value

/-! Messages of a session transcript, read the way the transcript code reads them. -/
namespace T560.Transcript

open Js (Value)

/-- A message is whatever value the session file or the provider gave. -/
abbrev Message := Value

/-- An object whose `role` is the given text. -/
def isRole (msg : Message) (role : String) : Bool :=
  msg.isObject && msg.get? "role" == some (.str role)

abbrev isAssistant (msg : Message) : Bool := isRole msg "assistant"

abbrev isToolResult (msg : Message) : Bool := isRole msg "toolResult"

/-- An assistant message whose turn ended in an error or was aborted. -/
def stoppedEarly (msg : Message) : Bool :=
  msg.get? "stopReason" == some (.str "error") || msg.get? "stopReason" == some (.str "aborted")

/-- The content blocks, when the content is an array. -/
def contentBlocks (msg : Message) : Option (List Value) :=
  match msg.get? "content" with
  | some (.arr blocks) => some blocks
  | _ => none

def TOOL_CALL_TYPES : List String := ["toolCall", "toolUse", "functionCall"]

structure ToolCallLike where
  id : String
  name : Option String
  deriving DecidableEq, Repr

def isToolCallType (block : Value) : Bool :=
  match block.get? "type" with
  | some (.str type) => TOOL_CALL_TYPES.contains type
  | _ => false

/-- The call a content block holds: its id must be a nonempty text. -/
def toolCallOfBlock (block : Value) : Option ToolCallLike :=
  match block.get? "id" with
  | some (.str id) =>
    if id ≠ "" && isToolCallType block then
      some { id := id, name := Value.str? (block.get? "name") }
    else none
  | _ => none

def extractToolCallsFromAssistant (msg : Message) : List ToolCallLike :=
  match contentBlocks msg with
  | some blocks => blocks.filterMap toolCallOfBlock
  | none => []

/-- The ids of the calls an assistant message makes. -/
def callIds (msg : Message) : List String := (extractToolCallsFromAssistant msg).map (·.id)

def nonEmptyText : Option Value → Option String
  | some (.str s) => if s = "" then none else some s
  | _ => none

def extractToolResultId (msg : Message) : Option String :=
  (nonEmptyText (msg.get? "toolCallId")).or (nonEmptyText (msg.get? "toolUseId"))

theorem not_toolResult_of_assistant {m : Message} (h : isAssistant m = true) :
    isToolResult m = false := by
  simp only [isRole, Bool.and_eq_true, beq_iff_eq] at h
  simp [isRole, h.2]

theorem isRecord_of_contentBlocks {x : Message} {blocks : List Value}
    (h : contentBlocks x = some blocks) : x.isRecord = true := by
  by_contra hr
  rw [contentBlocks, Value.get?_of_not_record hr] at h
  cases h

theorem contentBlocks_set {x : Message} (h : x.isRecord = true) (next : List Value) :
    contentBlocks (x.set "content" (.arr next)) = some next := by
  rw [contentBlocks, Value.get?_set h, if_pos rfl]

end T560.Transcript
