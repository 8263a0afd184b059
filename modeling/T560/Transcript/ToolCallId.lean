import T560.Foundation.InsertionMap
import T560.Transcript.Message

/-!
# Tool call ids for strict providers

Some providers take alphanumeric call ids only. The sanitizer gives every id of a transcript a
new one, and keeps a table so that a call and its results stay together.
-/

namespace T560.Transcript

open Js (Value)

inductive ToolCallIdMode where
  | strict
  | strict9
  deriving DecidableEq, Repr

def isHexDigit (c : Char) : Bool :=
  (48 ≤ c.toNat && c.toNat ≤ 57) || (97 ≤ c.toNat && c.toNat ≤ 102)

/-- The hash and the clock the ids are made with. A clock is read at most once for each new id,
so that its reading is indexed by the ids made before. -/
structure IdEnv where
  sha1Hex : String → String
  now : Nat → Nat
  sha1_length : ∀ text, (sha1Hex text).toList.length = 40
  sha1_hex : ∀ text, ∀ c ∈ (sha1Hex text).toList, isHexDigit c = true

/-- `text.slice(0, n)`, for texts of one unit per character. -/
def clip (n : Nat) (text : String) : String := String.ofList (text.toList.take n)

def IdEnv.shortHash (env : IdEnv) (text : String) (length : Nat) : String :=
  clip length (env.sha1Hex text)

def isAlphanumeric (c : Char) : Bool :=
  (97 ≤ c.toNat && c.toNat ≤ 122) || (65 ≤ c.toNat && c.toNat ≤ 90) ||
    (48 ≤ c.toNat && c.toNat ≤ 57)

def STRICT9_LEN : Nat := 9

/-- `id.replace(/[^a-zA-Z0-9]/g, "")` -/
def alphanumericOnly (id : String) : String := String.ofList (id.toList.filter isAlphanumeric)

section
variable (env : IdEnv)

def sanitizeToolCallId (id : String) (mode : ToolCallIdMode) : String :=
  if id = "" then if mode = .strict9 then "defaultid" else "defaulttoolid"
  else
    match mode with
    | .strict9 =>
      if (alphanumericOnly id).length ≥ STRICT9_LEN then clip STRICT9_LEN (alphanumericOnly id)
      else if (alphanumericOnly id).length > 0 then
        env.shortHash (alphanumericOnly id) STRICT9_LEN
      else env.shortHash "sanitized" STRICT9_LEN
    | .strict =>
      if (alphanumericOnly id).length > 0 then alphanumericOnly id else "sanitizedtoolid"

def MAX_LEN : Nat := 40

/-- The candidate with a numbered suffix, clipped to make room for it. -/
def suffixed (candidate : String) (i : Nat) : String :=
  let suffix := "x" ++ toString i
  clip (MAX_LEN - suffix.length) candidate ++ suffix

def makeUniqueToolCallId (id : String) (used : List String) (mode : ToolCallIdMode) : String :=
  match mode with
  | .strict9 =>
    let base := sanitizeToolCallId env id mode
    let candidate := if base.length ≥ STRICT9_LEN then clip STRICT9_LEN base else ""
    if candidate ≠ "" ∧ candidate ∉ used then candidate
    else
      let hashes := (List.range 1000).map fun i =>
        env.shortHash (id ++ ":" ++ toString i) STRICT9_LEN
      match hashes.find? (· ∉ used) with
      | some hashed => hashed
      | none => env.shortHash (id ++ ":" ++ toString (env.now used.length)) STRICT9_LEN
  | .strict =>
    let base := clip MAX_LEN (sanitizeToolCallId env id mode)
    if base ∉ used then base
    else
      let hash := env.shortHash id 8
      let maxBaseLen := MAX_LEN - hash.length
      let clippedBase := if base.length > maxBaseLen then clip maxBaseLen base else base
      let candidate := clippedBase ++ hash
      if candidate ∉ used then candidate
      else
        match ((List.range' 2 998).map (suffixed candidate)).find? (· ∉ used) with
        | some next => next
        | none =>
          let ts := "t" ++ toString (env.now used.length)
          clip (MAX_LEN - ts.length) candidate ++ ts

/-- The table of the new ids, and the new ids themselves. -/
structure IdTable where
  map : InsertionMap String String := .empty
  used : List String := []

def resolve (mode : ToolCallIdMode) (id : String) : StateM IdTable String := fun table =>
  match (table.map.get id).filter (· ≠ "") with
  | some existing => (existing, table)
  | none =>
    let next := makeUniqueToolCallId env id table.used mode
    (next, { map := table.map.set id next, used := table.used ++ [next] })

end

section Rewrite
variable (resolve : String → StateM IdTable String)

def rewriteBlock (block : Value) : StateM IdTable Value :=
  match toolCallOfBlock block with
  | some call => do
    let nextId ← resolve call.id
    return if nextId = call.id then block else block.set "id" (.str nextId)
  | none => return block

/-- The content is written anew when a block was, which shows in the blocks themselves. -/
def rewriteAssistantToolCallIds (message : Message) : StateM IdTable Message :=
  match contentBlocks message with
  | some content => do
    let next ← content.mapM (rewriteBlock resolve)
    return if next = content then message else message.set "content" (.arr next)
  | none => return message

/-- `...(next && { [key]: next })` -/
def spreadId (message : Message) (key : String) : Option String → Message
  | some next => if next = "" then message else message.set key (.str next)
  | none => message

def rewriteToolResultIds (message : Message) : StateM IdTable Message := do
  let toolCallId := nonEmptyText (message.get? "toolCallId")
  let toolUseId := nonEmptyText (message.get? "toolUseId")
  let nextToolCallId ← toolCallId.mapM resolve
  let nextToolUseId ← toolUseId.mapM resolve
  return if nextToolCallId = toolCallId ∧ nextToolUseId = toolUseId then message
    else spreadId (spreadId message "toolCallId" nextToolCallId) "toolUseId" nextToolUseId

def rewriteMessage (message : Message) : StateM IdTable Message :=
  if isAssistant message then rewriteAssistantToolCallIds resolve message
  else if isToolResult message then rewriteToolResultIds resolve message
  else return message

end Rewrite

/-- `changed` is set by the messages that were written anew, which differ from what they were. -/
def sanitizeToolCallIdsForTranscript (env : IdEnv) (messages : List Message)
    (mode : ToolCallIdMode) : List Message :=
  let out := ((messages.mapM (rewriteMessage (resolve env mode))).run {}).1
  if out = messages then messages else out

end T560.Transcript
