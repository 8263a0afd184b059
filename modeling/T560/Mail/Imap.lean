import T560.Foundation.FieldSearch
import T560.Foundation.InsertionMap
import T560.Js.Ascii
import T560.Mail.Wire

/-!
# Responses of an IMAP server

A reader takes lines and counted literals from one buffer that the socket fills chunk by chunk.
`command` reads the lines of a response up to the tagged one, with the literals that lines announce.
`parseFetchedMessages` collects the messages from the lines and literals.
-/

namespace T560.Mail

open Foundation (stripName searchField containsName wordAt)
open Js (isSpace isDigit trim trimChars)

abbrev Bytes := List UInt8

def encodeAscii (text : List Char) : Bytes := text.map fun c => UInt8.ofNat c.toNat

/-- What the runtime does: `toString("utf-8")` of a buffer, `Number` of a text of digits (nothing
where it is infinite) and `toUpperCase`. A number below 2^53 is read from its decimal text exactly. -/
structure ImapEnv where
  decode : Bytes → String
  number : String → Option Nat
  toUpperCase : String → String
  decode_ascii : ∀ text : List Char, (∀ c ∈ text, c.toNat < 128) →
    decode (encodeAscii text) = String.ofList text
  number_decimal : ∀ n : Nat, n < 2 ^ 53 → number (toString n) = some n

/-- A runtime for texts of one byte a character. -/
def asciiEnv : ImapEnv where
  decode bytes := String.ofList (bytes.map fun b => Char.ofNat b.toNat)
  number s := if s.toList.all isDigit then some (Js.decimalValue s.toList) else none
  toUpperCase s := String.ofList (s.toList.map Char.toUpper)
  decode_ascii text htext := by
    have hchar : ∀ c ∈ text, Char.ofNat (UInt8.ofNat c.toNat).toNat = c := by
      intro c hc
      have hcode : (UInt8.ofNat c.toNat).toNat = c.toNat := by
        have := htext c hc
        rw [UInt8.toNat_ofNat']
        omega
      rw [hcode, Char.ofNat_toNat]
    unfold encodeAscii
    rw [List.map_map]
    exact congrArg String.ofList ((List.map_congr_left hchar).trans (List.map_id' text))
  number_decimal n _ := by
    rw [if_pos (Js.digits_toString n).2, Js.decimalValue_toString]

/-! ## The buffered reader -/

/-- What the socket does when all chunks have arrived. -/
inductive Ending where
  | closed
  | silent
  | failed (message : String)
  deriving DecidableEq, Repr

/-- The buffer and the chunks that have not arrived yet. -/
structure Reader where
  buffer : Bytes
  chunks : List Bytes
  deriving DecidableEq, Repr

def timedOut : String := "Timed out waiting for remote server response."

/-- The bytes in front of the first line break and those behind it. -/
def takeLine : Bytes → Option (Bytes × Bytes)
  | 13 :: 10 :: rest => some ([], rest)
  | b :: rest => (takeLine rest).map fun (line, behind) => (b :: line, behind)
  | [] => none

section Read

variable (env : ImapEnv) (ending : Ending)

/-- No chunk is left, and the line is not complete. -/
def lastLine (buffer : Bytes) : Except String (String × Reader) :=
  match ending with
  | .closed =>
    if buffer = [] then .error "Connection closed by remote server."
    else .ok (env.decode buffer, ⟨[], []⟩)
  | .silent => .error timedOut
  | .failed message => .error message

/-- The loop of `readLine` over the chunks that it waits for. -/
def readLineFrom (buffer : Bytes) : List Bytes → Except String (String × Reader)
  | [] =>
    match takeLine buffer with
    | some (line, behind) => .ok (env.decode line, ⟨behind, []⟩)
    | none => lastLine env ending buffer
  | chunk :: chunks =>
    match takeLine buffer with
    | some (line, behind) => .ok (env.decode line, ⟨behind, chunk :: chunks⟩)
    | none => readLineFrom (buffer ++ chunk) chunks

def readLine (reader : Reader) : Except String (String × Reader) :=
  readLineFrom env ending reader.buffer reader.chunks

def literalCut : String :=
  match ending with
  | .closed => "Connection closed before literal data was fully received."
  | .silent => timedOut
  | .failed message => message

/-- The loop of `readBytes` over the chunks that it waits for. -/
def readBytesFrom (need : Nat) (buffer : Bytes) : List Bytes → Except String (Bytes × Reader)
  | [] =>
    if need ≤ buffer.length then .ok (buffer.take need, ⟨buffer.drop need, []⟩)
    else .error (literalCut ending)
  | chunk :: chunks =>
    if need ≤ buffer.length then .ok (buffer.take need, ⟨buffer.drop need, chunk :: chunks⟩)
    else readBytesFrom need (buffer ++ chunk) chunks

def readBytes (need : Nat) (reader : Reader) : Except String (Bytes × Reader) :=
  readBytesFrom ending need reader.buffer reader.chunks

end Read

def Reader.consumeOptionalCrlf (reader : Reader) : Reader :=
  match reader.buffer with
  | 13 :: 10 :: rest => { reader with buffer := rest }
  | _ => reader

/-! ## Commands -/

inductive ResponsePart where
  | line (text : String)
  | literal (text : String) (data : Bytes)
  deriving DecidableEq, Repr

structure ImapResponse where
  status : String
  statusLine : String
  parts : List ResponsePart
  deriving DecidableEq, Repr

def MAX_IMAP_COMMAND_LINES : Nat := 2000

def MAX_IMAP_LITERAL_BYTES : Nat := 8000000

/-- `/\{(\d+)\}$/` -/
def literalDigits (line : String) : Option String :=
  match line.toList.reverse with
  | '\x7d' :: front =>
    let digits := front.takeWhile isDigit
    if digits ≠ [] ∧ (front.dropWhile isDigit).head? = some '\x7b' then
      some (String.ofList digits.reverse)
    else none
  | _ => none

section Command

variable (env : ImapEnv) (ending : Ending)

/-- `clampInt(literalMatch[1], 0, 50_000_000, 0)`, where the line announces a literal. -/
def literalLength (line : String) : Option Nat :=
  (literalDigits line).map fun digits =>
    match env.number digits with
    | some n => min n 50000000
    | none => 0

/-- The parts that the line has given with its literal, and the literal bytes so far. -/
def readLiteral (command line : String) (literalBytes : Nat) (reader : Reader) :
    Except String (List ResponsePart × Nat × Reader) :=
  match literalLength env line with
  | none => .ok ([.line line], literalBytes, reader)
  | some length =>
    if literalBytes + length > MAX_IMAP_LITERAL_BYTES then
      .error ("IMAP " ++ command ++ " response exceeded " ++ toString MAX_IMAP_LITERAL_BYTES ++
        " literal bytes.")
    else do
      let (data, reader) ← readBytes ending length reader
      .ok ([.line line, .literal line data], literalBytes + length, reader.consumeOptionalCrlf)

/-- The first word behind the tag. -/
def statusOf (tag line : String) : String :=
  env.toUpperCase (String.ofList
    ((trimChars (line.toList.drop (tag.length + 1))).takeWhile fun c => !isSpace c))

/-- The loop of `command` with the lines that it may still read. -/
def commandLoop (tag command : String) : Nat → Nat → List ResponsePart → Reader →
    Except String (ImapResponse × Reader)
  | 0, _, _, _ =>
    .error ("IMAP " ++ command ++ " response exceeded " ++ toString MAX_IMAP_COMMAND_LINES ++ " lines.")
  | lines + 1, literalBytes, parts, reader => do
    let (line, reader) ← readLine env ending reader
    let (more, literalBytes, reader) ← readLiteral env ending command line literalBytes reader
    if (tag ++ " ").toList <+: line.toList then
      .ok (⟨statusOf env tag line, line, parts ++ more⟩, reader)
    else commandLoop tag command lines literalBytes (parts ++ more) reader

/-- `ImapSession.command`, from the response on. -/
def imapResponse (tagCounter : Nat) (command : String) (reader : Reader) :
    Except String (ImapResponse × Reader) :=
  commandLoop env ending (nextTag tagCounter) command MAX_IMAP_COMMAND_LINES 0 [] reader

end Command

/-! ## Fetched messages -/

structure ParsedMessage where
  sequence : Nat
  uid : Option Nat := none
  flags : List String := []
  internalDate : String := ""
  size : Nat := 0
  headersRaw : String := ""
  bodyRaw : String := ""
  deriving DecidableEq, Repr

/-- `\s+` -/
def blanks (text : List Char) : Option (List Char) :=
  if text.head?.any isSpace then some (text.dropWhile isSpace) else none

/-- `\s+(\d+)\b` -/
def numberField (text : List Char) : Option (List Char) :=
  (blanks text).bind fun text =>
    let digits := text.takeWhile isDigit
    if digits ≠ [] ∧ wordAt (text.dropWhile isDigit).head? = false then some digits else none

/-- What stands between two marks. -/
def between (first last : Char) : List Char → Option (List Char)
  | [] => none
  | c :: text =>
    if c = first ∧ last ∈ text then some (text.takeWhile (· != last)) else none

/-- `\s+"([^"]+)"` -/
def dateField (text : List Char) : Option (List Char) :=
  (blanks text).bind fun text => (between '"' '"' text).filter (· ≠ [])

/-- `\s+\(([^)]*)\)` -/
def flagsField (text : List Char) : Option (List Char) :=
  (blanks text).bind fun text => between '(' ')' text

section Parse

variable (env : ImapEnv)

/-- `/^\*\s+(\d+)\s+FETCH\b/i` -/
def extractFetchSequence (line : String) : Option Nat :=
  match line.toList with
  | '*' :: rest => do
    let rest ← blanks rest
    let digits := rest.takeWhile isDigit
    let behind ← blanks (rest.dropWhile isDigit)
    let rest ← stripName "FETCH".toList behind
    if digits ≠ [] ∧ wordAt rest.head? = false then
      (env.number (String.ofList digits)).filter (0 < ·)
    else none
  | _ => none

def parseFlags (raw : List Char) : List String :=
  (((trimChars raw).splitOnP isSpace).filter (· ≠ [])).map String.ofList

/-- The fields that a line has for its message. -/
def readFields (line : List Char) (target : ParsedMessage) : ParsedMessage :=
  let uid := (searchField "UID".toList numberField false line).bind fun digits =>
    (env.number (String.ofList digits)).filter (0 < ·)
  let size := (searchField "RFC822.SIZE".toList numberField false line).bind fun digits =>
    env.number (String.ofList digits)
  let date := searchField "INTERNALDATE".toList dateField false line
  let flags := searchField "FLAGS".toList flagsField false line
  { target with
    uid := uid.orElse fun _ => target.uid
    size := size.getD target.size
    internalDate := (date.map String.ofList).getD target.internalDate
    flags := (flags.map parseFlags).getD target.flags }

/-- The text that a literal is of the message, told by its line. -/
def readLiteralText (line : List Char) (data : Bytes) (target : ParsedMessage) : ParsedMessage :=
  if containsName "BODY[HEADER".toList line then { target with headersRaw := env.decode data }
  else if containsName "BODY[TEXT".toList line || containsName "BODY[]".toList line ||
      (searchField "RFC822".toList (fun rest => if wordAt rest.head? then none else some ()) false
        line).isSome then
    { target with bodyRaw := env.decode data }
  else target

def ResponsePart.text : ResponsePart → String
  | .line text => text
  | .literal text _ => text

def applyPart (part : ResponsePart) (target : ParsedMessage) : ParsedMessage :=
  let target := readFields env part.text.toList target
  match part with
  | .line _ => target
  | .literal text data => readLiteralText env text.toList data target

def parsePart (rows : InsertionMap Nat ParsedMessage) (part : ResponsePart) :
    InsertionMap Nat ParsedMessage :=
  match extractFetchSequence env part.text with
  | none => rows
  | some sequence =>
    rows.set sequence (applyPart env part ((rows.get sequence).getD { sequence := sequence }))

def parseFetchedMessages (parts : List ResponsePart) : List ParsedMessage :=
  (parts.foldl (parsePart env) InsertionMap.empty).values.mergeSort
    fun a b => b.sequence ≤ a.sequence

end Parse

end T560.Mail
