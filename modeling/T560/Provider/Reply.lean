import T560.Transcript.Message

/-! Provider replies and the messages a run appends to its transcript. -/
namespace T560.Provider

open Js (Value trim)
open Transcript (Message isAssistant isToolResult isRole contentBlocks)

structure ToolCall where
  id : String
  name : String
  arguments : Value

inductive Block where
  | text (text : String)
  | thinking (thinking : String)
  | toolCall (call : ToolCall)

structure AssistantMessage where
  content : List Block
  stopReason : Option String := none

def Block.toValue : Block → Value
  | .text s => .obj [("type", .str "text"), ("text", .str s)]
  | .thinking s => .obj [("type", .str "thinking"), ("thinking", .str s)]
  | .toolCall call => .obj [("type", .str "toolCall"), ("id", .str call.id),
      ("name", .str call.name), ("arguments", call.arguments)]

def AssistantMessage.toMessage (a : AssistantMessage) : Message :=
  .obj ([("role", .str "assistant"), ("content", .arr (a.content.map Block.toValue))] ++
    match a.stopReason with
    | some reason => [("stopReason", .str reason)]
    | none => [])

def AssistantMessage.toolCalls (a : AssistantMessage) : List ToolCall :=
  a.content.filterMap fun block =>
    match block with
    | .toolCall call => some call
    | _ => none

def AssistantMessage.callIds (a : AssistantMessage) : List String := a.toolCalls.map (·.id)

/-- The characters begin with `pattern`, a lower-case ASCII text, up to ASCII case. -/
def startsWithTag (pattern : String) (cs : List Char) : Bool :=
  (cs.take pattern.length).map Char.toLower == pattern.toList

/-- The number of characters up to the end of the first closing tag. -/
def closingEnd : List Char → Option Nat
  | [] => none
  | c :: cs =>
    if startsWithTag "</think>" (c :: cs) then some "</think>".length
    else (closingEnd cs).map (· + 1)

/-- The length of the thinking section that starts here. -/
def thinkLength (cs : List Char) : Option Nat :=
  if startsWithTag "<think>" cs then
    (closingEnd (cs.drop "<think>".length)).map (· + "<think>".length)
  else none

/-- What `replace` leaves: `skip` characters belong to a section already matched. -/
def stripFrom : Nat → List Char → List Char
  | _, [] => []
  | skip + 1, _ :: cs => stripFrom skip cs
  | 0, c :: cs =>
    match thinkLength (c :: cs) with
    | some n => stripFrom (n - 1) cs
    | none => c :: stripFrom 0 cs

/-- The text of `stripInlineThinking`. -/
def stripInlineThinking (raw : String) : String := trim (String.ofList (stripFrom 0 raw.toList))

/-- The text of `flattenAssistantMessage`. -/
def AssistantMessage.flattenedText (a : AssistantMessage) : String :=
  let textParts := a.content.filterMap fun
    | .text text => some (stripInlineThinking text)
    | _ => none
  trim (String.intercalate "\n\n" (textParts.filter (· ≠ "")))

def userMessage (content : String) (timestamp : ℚ) : Message :=
  .obj [("role", .str "user"), ("content", .str content), ("timestamp", .num (.fin timestamp))]

def toolResultMessage (call : ToolCall) (text : String) (isError : Bool) (timestamp : ℚ) :
    Message :=
  .obj [("role", .str "toolResult"), ("toolCallId", .str call.id), ("toolName", .str call.name),
    ("content", .arr [.obj [("type", .str "text"), ("text", .str text)]]),
    ("isError", .bool isError), ("timestamp", .num (.fin timestamp))]

/-- The id under which a result refers to its call. -/
def resultRef (msg : Message) : Option String :=
  if isToolResult msg then Value.str? (msg.get? "toolCallId") else none

def blockCallId (block : Value) : Option String :=
  if block.get? "type" == some (.str "toolCall") then Value.str? (block.get? "id") else none

/-- The ids of the tool call blocks of a message. -/
def calledIds (msg : Message) : List String :=
  ((contentBlocks msg).getD []).filterMap blockCallId

@[simp]
theorem isAssistant_toMessage (a : AssistantMessage) : isAssistant a.toMessage = true := by
  simp [isRole, AssistantMessage.toMessage, Value.isObject, Value.get?]

@[simp]
theorem isAssistant_userMessage (text : String) (t : ℚ) : isAssistant (userMessage text t) = false := by
  simp [isRole, userMessage, Value.isObject, Value.get?]

@[simp]
theorem isToolResult_userMessage (text : String) (t : ℚ) :
    isToolResult (userMessage text t) = false := by
  simp [isRole, userMessage, Value.isObject, Value.get?]

@[simp]
theorem isAssistant_toolResultMessage (c : ToolCall) (text : String) (e : Bool) (t : ℚ) :
    isAssistant (toolResultMessage c text e t) = false := by
  simp [isRole, toolResultMessage, Value.isObject, Value.get?]

@[simp]
theorem isToolResult_toolResultMessage (c : ToolCall) (text : String) (e : Bool) (t : ℚ) :
    isToolResult (toolResultMessage c text e t) = true := by
  simp [isRole, toolResultMessage, Value.isObject, Value.get?]

@[simp]
theorem resultRef_toMessage (a : AssistantMessage) : resultRef a.toMessage = none := by
  simp [resultRef, Transcript.not_toolResult_of_assistant (isAssistant_toMessage a)]

@[simp]
theorem resultRef_userMessage (text : String) (t : ℚ) : resultRef (userMessage text t) = none := by
  simp [resultRef]

@[simp]
theorem resultRef_toolResultMessage (c : ToolCall) (text : String) (e : Bool) (t : ℚ) :
    resultRef (toolResultMessage c text e t) = some c.id := by
  simp [resultRef, toolResultMessage, Value.get?, Value.str?, isRole, Value.isObject, List.lookup_cons]

@[simp]
theorem contentBlocks_toMessage (a : AssistantMessage) :
    contentBlocks a.toMessage = some (a.content.map Block.toValue) := by
  simp [contentBlocks, AssistantMessage.toMessage, Value.get?, List.lookup_cons]

theorem blockCallId_toValue (b : Block) :
    blockCallId b.toValue = match b with
      | .toolCall call => some call.id
      | _ => none := by
  cases b <;> simp [blockCallId, Block.toValue, Value.get?, Value.str?, List.lookup_cons]

@[simp]
theorem calledIds_toMessage (a : AssistantMessage) : calledIds a.toMessage = a.callIds := by
  simp only [calledIds, contentBlocks_toMessage, Option.getD_some, AssistantMessage.callIds,
    AssistantMessage.toolCalls]
  induction a.content with
  | nil => rfl
  | cons b bs ih =>
    rw [List.map_cons, List.filterMap_cons, List.filterMap_cons, blockCallId_toValue, ih]
    cases b <;> rfl

end T560.Provider
