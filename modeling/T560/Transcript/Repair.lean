import T560.Transcript.Message

/-!
# Transcript repair

`repairToolCallInputs` drops malformed calls, `repairToolUseResultPairing` puts every
tool result directly behind the turn that asked for it. Both return the list they
were given when no branch set the `changed` flag.
-/

namespace T560.Transcript

open Js (Value)

def isToolCallBlock (block : Value) : Bool := block.isObject && isToolCallType block

def isPresent : Option Value → Bool
  | none | some .null => false
  | _ => true

def hasToolCallInput (block : Value) : Bool :=
  isPresent (block.get? "input") || isPresent (block.get? "arguments")

def hasNonEmptyStringField : Option Value → Bool
  | some (.str s) => Js.trim s != ""
  | _ => false

def hasToolCallId (block : Value) : Bool := hasNonEmptyStringField (block.get? "id")

def hasToolCallName (block : Value) : Bool := hasNonEmptyStringField (block.get? "name")

/-- A call that cannot be replayed: it lacks its input, its id or its name. -/
def isMalformedCall (block : Value) : Bool :=
  isToolCallBlock block &&
    (!hasToolCallInput block || !hasToolCallId block || !hasToolCallName block)

structure ToolCallInputRepairReport where
  messages : List Message := []
  droppedToolCalls : Nat := 0
  droppedAssistantMessages : Nat := 0

structure InputRepair where
  report : ToolCallInputRepairReport := {}
  changed : Bool := false

def InputRepair.push (st : InputRepair) (msg : Message) : InputRepair :=
  { st with report := { st.report with messages := st.report.messages ++ [msg] } }

def InputRepair.dropCalls (st : InputRepair) (n : Nat) : InputRepair :=
  { st with
    report := { st.report with droppedToolCalls := st.report.droppedToolCalls + n }
    changed := true }

def InputRepair.dropMessage (st : InputRepair) : InputRepair :=
  { st with
    report := { st.report with
      droppedAssistantMessages := st.report.droppedAssistantMessages + 1 }
    changed := true }

def repairInputStep (st : InputRepair) (msg : Message) : InputRepair :=
  if !isAssistant msg then st.push msg
  else
    match contentBlocks msg with
    | none => st.push msg
    | some blocks =>
      let nextContent := blocks.filter fun b => !isMalformedCall b
      let droppedInMessage := (blocks.filter isMalformedCall).length
      if droppedInMessage > 0 then
        let st := st.dropCalls droppedInMessage
        if nextContent.isEmpty then st.dropMessage
        else st.push (msg.set "content" (.arr nextContent))
      else st.push msg

def repairToolCallInputs (messages : List Message) : ToolCallInputRepairReport :=
  let st := messages.foldl repairInputStep {}
  { st.report with messages := if st.changed then st.report.messages else messages }

def missingToolResultText : String :=
  "[t560] missing tool result in session history; inserted synthetic error result for transcript repair."

def makeMissingToolResult (timestamp : ℚ) (toolCallId : String) (toolName : Option String) :
    Message :=
  .obj
    [("role", .str "toolResult"), ("toolCallId", .str toolCallId),
      ("toolName", .str (toolName.getD "unknown")),
      ("content", .arr [.obj [("type", .str "text"), ("text", .str missingToolResultText)]]),
      ("isError", .bool true), ("timestamp", .num (.fin timestamp))]

structure PairingState where
  out : List Message := []
  added : List Message := []
  seenToolResultIds : List String := []
  droppedDuplicateCount : Nat := 0
  droppedOrphanCount : Nat := 0
  moved : Bool := false
  changed : Bool := false

namespace PairingState

def push (st : PairingState) (msg : Message) : PairingState := { st with out := st.out ++ [msg] }

def dropOrphan (st : PairingState) : PairingState :=
  { st with droppedOrphanCount := st.droppedOrphanCount + 1, changed := true }

def dropDuplicate (st : PairingState) : PairingState :=
  { st with droppedDuplicateCount := st.droppedDuplicateCount + 1, changed := true }

def pushToolResult (st : PairingState) (msg : Message) : PairingState :=
  match extractToolResultId msg with
  | some id =>
    if id ∈ st.seenToolResultIds then st.dropDuplicate
    else { st with seenToolResultIds := st.seenToolResultIds ++ [id] }.push msg
  | none => st.push msg

end PairingState

/-- The scan over the messages up to the next assistant message. `consumed` is `j - i - 1`. -/
structure SpanScan where
  state : PairingState
  spanResultsById : List (String × Message) := []
  remainder : List Message := []
  consumed : Nat := 0

def scanNext (toolCallIds : List String) (sc : SpanScan) (next : Message) : SpanScan :=
  let sc := { sc with consumed := sc.consumed + 1 }
  if !isToolResult next then { sc with remainder := sc.remainder ++ [next] }
  else
    match extractToolResultId next with
    | some id =>
      if id ∈ toolCallIds then
        if id ∈ sc.state.seenToolResultIds then { sc with state := sc.state.dropDuplicate }
        else if (sc.spanResultsById.lookup id).isSome then sc
        else { sc with spanResultsById := sc.spanResultsById ++ [(id, next)] }
      else { sc with state := sc.state.dropOrphan }
    | none => { sc with state := sc.state.dropOrphan }

def scanSpan (toolCallIds : List String) : SpanScan → List Message → SpanScan
  | sc, [] => sc
  | sc, next :: rest =>
    if isAssistant next then sc else scanSpan toolCallIds (scanNext toolCallIds sc next) rest

/-- The assistant message goes out first; results that have to pass other messages count
as moved. -/
def openTurn (assistant : Message) (sc : SpanScan) : PairingState :=
  let st := sc.state.push assistant
  if !sc.spanResultsById.isEmpty && !sc.remainder.isEmpty then
    { st with moved := true, changed := true }
  else st

section
variable (allowSyntheticToolResults : Bool) (clock : Nat → ℚ)

/-- One call of the turn: its result of the span, or a synthetic one. -/
def pushResultOf (spanResultsById : List (String × Message)) (st : PairingState)
    (call : ToolCallLike) : PairingState :=
  match spanResultsById.lookup call.id with
  | some existing => st.pushToolResult existing
  | none =>
    if allowSyntheticToolResults then
      let missing := makeMissingToolResult (clock st.added.length) call.id call.name
      { st with added := st.added ++ [missing], changed := true }.pushToolResult missing
    else st

def closeTurn (assistant : Message) (toolCalls : List ToolCallLike) (sc : SpanScan) :
    PairingState :=
  let st := toolCalls.foldl (pushResultOf allowSyntheticToolResults clock sc.spanResultsById)
    (openTurn assistant sc)
  { st with out := st.out ++ sc.remainder }

/-- The main loop. `skip` counts the messages the last span scan already consumed, as
`i = j - 1` does. -/
def repairFrom : List Message → Nat → PairingState → PairingState
  | [], _, st => st
  | _ :: rest, skip + 1, st => repairFrom rest skip st
  | msg :: rest, 0, st =>
    if !isAssistant msg then
      repairFrom rest 0 (if isToolResult msg then st.dropOrphan else st.push msg)
    else if stoppedEarly msg then repairFrom rest 0 (st.push msg)
    else
      let toolCalls := extractToolCallsFromAssistant msg
      if toolCalls.isEmpty then repairFrom rest 0 (st.push msg)
      else
        let sc := scanSpan (toolCalls.map (·.id)) { state := st } rest
        repairFrom rest sc.consumed (closeTurn allowSyntheticToolResults clock msg toolCalls sc)

structure ToolUseRepairReport where
  messages : List Message
  added : List Message
  droppedDuplicateCount : Nat
  droppedOrphanCount : Nat
  moved : Bool

def repairToolUseResultPairing (messages : List Message) : ToolUseRepairReport :=
  let st := repairFrom allowSyntheticToolResults clock messages 0 {}
  let changedOrMoved := st.changed || st.moved
  { messages := if changedOrMoved then st.out else messages
    added := st.added
    droppedDuplicateCount := st.droppedDuplicateCount
    droppedOrphanCount := st.droppedOrphanCount
    moved := changedOrMoved }

end

end T560.Transcript
