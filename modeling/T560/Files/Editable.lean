import T560.Foundation.Occurrence
import T560.Js.Text

/-!
# Editable ranges of a file

The write and edit tools leave a file with editable markers alone outside of the ranges that the
markers enclose. Texts are sequences of code units, as the runtime's positions count them.
-/

namespace T560.Files

open Js Occurrence

def EDITABLE_START_MARKER : Units := units "T560_EDITABLE_START"
def EDITABLE_END_MARKER : Units := units "T560_EDITABLE_END"
def LINE_BREAK : Units := units "\n"

structure EditableRange where
  start : Nat
  «end» : Nat
deriving DecidableEq

/-- `content.indexOf(needle, start)`, for a start inside of the content. -/
def indexOfFrom (content needle : Units) (start : Nat) : Option Nat :=
  (indexOf needle (content.drop start)).map (start + ·)

/-- `content.slice(start, end)`. -/
def slice (content : Units) (start «end» : Nat) : Units := (content.take «end»).drop start

/-- Every turn of the loop moves the cursor, so there are at most as many turns as code units. -/
def parseEditableRangesFrom (content : Units) : Nat → Nat → List EditableRange
  | 0, _ => []
  | fuel + 1, cursor =>
    if cursor < content.length then
      match indexOfFrom content EDITABLE_START_MARKER cursor with
      | none => []
      | some startMarker =>
        let editableStart :=
          match indexOfFrom content LINE_BREAK startMarker with
          | some startLineBreak => startLineBreak + 1
          | none => content.length
        match indexOfFrom content EDITABLE_END_MARKER editableStart with
        | none => []
        | some endMarker =>
          ⟨editableStart, endMarker⟩ ::
            parseEditableRangesFrom content fuel (endMarker + EDITABLE_END_MARKER.length)
    else []

def parseEditableRanges (content : Units) : List EditableRange :=
  parseEditableRangesFrom content content.length 0

def isWithinEditableRanges (ranges : List EditableRange) (start «end» : Nat) : Bool :=
  ranges.any fun range => range.start ≤ start && «end» ≤ range.end

/-- A needle with a code unit moves the cursor at every turn; the empty one keeps the loop of the
code running for ever, and no tool looks for it. -/
def collectMatchRangesFrom (content needle : Units) : Nat → Nat → List EditableRange
  | 0, _ => []
  | fuel + 1, cursor =>
    if cursor ≤ content.length then
      match indexOfFrom content needle cursor with
      | none => []
      | some idx =>
        ⟨idx, idx + needle.length⟩ :: collectMatchRangesFrom content needle fuel (idx + needle.length)
    else []

def collectMatchRanges (content needle : Units) : List EditableRange :=
  collectMatchRangesFrom content needle (content.length + 1) 0

def projectFrom (content : Units) : Nat → List EditableRange → Units
  | cursor, [] => content.drop cursor
  | cursor, range :: ranges => slice content cursor range.start ++ projectFrom content range.end ranges

def projectNonEditableContent (content : Units) (ranges : List EditableRange) : Units :=
  if ranges = [] then content else projectFrom content 0 ranges

def editBlocked : String :=
  "Edit blocked: file has editable-region markers (T560_EDITABLE_START/T560_EDITABLE_END) and this " ++
    "change touches protected content."

def markersLost : String :=
  "Write blocked: files with T560_EDITABLE_START/T560_EDITABLE_END must preserve markers and only " ++
    "change text between them."

def protectedChanged : String :=
  "Write blocked: only content between T560_EDITABLE_START/T560_EDITABLE_END can change."

def assertEditWithinAllowedRanges (content findText : Units) (replaceAll : Bool) : Except String Unit :=
  let ranges := parseEditableRanges content
  if ranges = [] then .ok ()
  else
    let found := collectMatchRanges content findText
    let targets := if replaceAll then found else found.take 1
    if targets.all fun range => isWithinEditableRanges ranges range.start range.end then .ok ()
    else .error editBlocked

def assertWriteWithinAllowedRanges (existingContent nextContent : Units) : Except String Unit :=
  let beforeRanges := parseEditableRanges existingContent
  if beforeRanges = [] then .ok ()
  else
    let afterRanges := parseEditableRanges nextContent
    if afterRanges = [] then .error markersLost
    else if projectNonEditableContent existingContent beforeRanges ≠
        projectNonEditableContent nextContent afterRanges then .error protectedChanged
    else .ok ()

/-- What a replacement text stands for when a text is looked for, which has no groups: the dollar
sequences of `String.prototype.replace`. -/
def getSubstitution (found before after : Units) : Units → Units
  | [] => []
  | [c] => [c]
  | c :: d :: rest =>
    if c = 36 then
      if d = 36 then 36 :: getSubstitution found before after rest
      else if d = 38 then found ++ getSubstitution found before after rest
      else if d = 96 then before ++ getSubstitution found before after rest
      else if d = 39 then after ++ getSubstitution found before after rest
      else c :: getSubstitution found before after (d :: rest)
    else c :: getSubstitution found before after (d :: rest)

/-- `content.replace(findText, replaceText)`. -/
def replaceFirst (content findText replaceText : Units) : Units :=
  match indexOf findText content with
  | none => content
  | some n =>
    let before := content.take n
    let after := content.drop (n + findText.length)
    before ++ getSubstitution findText before after replaceText ++ after

/-- The text that the edit tool writes. -/
def editedContent (content findText replaceText : Units) (replaceAll : Bool) : Units :=
  if replaceAll then replaced findText replaceText 0 content
  else replaceFirst content findText replaceText

/-- The edit tool between its reading and its writing of the file. -/
def edit (content findText replaceText : Units) (replaceAll : Bool) : Except String Units := do
  if findText = [] then throw "find must not be empty."
  if indexOf findText content = none then throw "find text was not found in target file."
  assertEditWithinAllowedRanges content findText replaceAll
  return editedContent content findText replaceText replaceAll

end T560.Files
