import T560.Js.Ascii
import T560.Js.Lines
import T560.Format.Inline

/-!
# Messages as HTML

A reply is taken apart into code blocks and lines. For Telegram a line is a heading, a quote or
text; for the web page it may also be a rule, a list item or blank. A heading is formatted inline
on the web page only.
-/

namespace T560.Format

open Js (isSpace trimChars splitLines isDigit)

/-- What the loop over the lines writes out: a code block with its language, the code behind a
fence that is never closed, or a line. -/
inductive Block where
  | fence (lang : List Char) (code : List (List Char))
  | unclosed (code : List (List Char))
  | line (text : List Char)
  deriving DecidableEq, Repr

def isFence (line : List Char) : Bool := "```".toList.isPrefixOf (line.dropWhile isSpace)

/-- The loop over the lines. The state is the language and the buffer of an open code block. -/
def blocks : Option (List Char × List (List Char)) → List (List Char) → List Block
  | none, [] => []
  | some (_, codeBuffer), [] => if codeBuffer = [] then [] else [.unclosed codeBuffer]
  | none, line :: lines =>
    if isFence line then blocks (some (trimChars ((line.dropWhile isSpace).drop 3), [])) lines
    else .line line :: blocks none lines
  | some (codeLang, codeBuffer), line :: lines =>
    if isFence line then .fence codeLang codeBuffer :: blocks none lines
    else blocks (some (codeLang, codeBuffer ++ [line])) lines

/-- `lines.join("\n")` -/
def joinLines (lines : List (List Char)) : List Char := ['\n'].intercalate lines

section Lines

/-- `/\s+(.+)$/` from the start of the text. White space at the end of a text of white space is
given back to the group. -/
def afterSpace (text : List Char) : Option (List Char) :=
  let space := text.takeWhile isSpace
  let rest := text.dropWhile isSpace
  if space = [] then none
  else if rest ≠ [] then if rest.all dot then some rest else none
  else if 2 ≤ space.length ∧ space.getLast?.all dot then some (space.drop (space.length - 1))
  else none

/-- `/^(#{1,3})\s+(.+)$/`: the number of signs and the text. -/
def headingMatch (line : List Char) : Option (Nat × List Char) :=
  let level := (line.takeWhile (· = '#')).length
  if 1 ≤ level ∧ level ≤ 3 then (afterSpace (line.drop level)).map fun text => (level, text)
  else none

def isQuote (line : List Char) : Bool := "> ".toList.isPrefixOf (line.dropWhile isSpace)

/-- `line.replace(/^>\s?/, "")` -/
def quoteText : List Char → List Char
  | '>' :: c :: rest => if isSpace c then rest else c :: rest
  | '>' :: [] => []
  | line => line

/-- `/^[-*_]{3,}\s*$/` -/
def isRule (line : List Char) : Bool :=
  let signs := line.takeWhile fun c => c ∈ ['-', '*', '_']
  decide (3 ≤ signs.length) && (line.drop signs.length).all isSpace

/-- `/([-*+]|\d+\.)/` from the start of the text: the text behind it. -/
def afterBullet (text : List Char) : Option (List Char) :=
  match text with
  | [] => none
  | c :: rest =>
    if c ∈ ['-', '*', '+'] then some rest
    else
      let digits := text.takeWhile isDigit
      if digits ≠ [] ∧ (text.drop digits.length).head? = some '.' then
        some (text.drop (digits.length + 1))
      else none

/-- `/^(\s*)([-*+]|\d+\.)\s+(.+)$/`: the text of the item. -/
def listMatch (line : List Char) : Option (List Char) :=
  (afterBullet (line.dropWhile isSpace)).bind afterSpace

end Lines

section Telegram

def markdownLineToTelegramHtml (line : List Char) : List Char :=
  match headingMatch line with
  | some (_, text) => "<b>".toList ++ escapeHtml text ++ "</b>".toList
  | none =>
    if isQuote line then
      "<blockquote>".toList ++ telegramInlineFormat (quoteText line) ++ "</blockquote>".toList
    else telegramInlineFormat line

def telegramCode (langAttr : List Char) (code : List (List Char)) : List Char :=
  "<pre><code".toList ++ langAttr ++ ">".toList ++ escapeHtml (joinLines code) ++
    "</code></pre>".toList

def telegramBlock : Block → List Char
  | .fence codeLang code =>
    telegramCode (if codeLang = [] then []
      else " class=\"language-".toList ++ escapeHtml codeLang ++ "\"".toList) code
  | .unclosed code => telegramCode [] code
  | .line line => markdownLineToTelegramHtml line

def markdownToTelegramHtml (text : List Char) : List Char :=
  joinLines ((blocks none (splitLines text)).map telegramBlock)

end Telegram

section Web

def webHeading (level : Nat) (text : List Char) : List Char :=
  "<h".toList ++ (toString (level + 1)).toList ++ ">".toList ++ webInlineFormat text ++
    "</h".toList ++ (toString (level + 1)).toList ++ ">".toList

def webLine (line : List Char) : List Char :=
  match headingMatch line with
  | some (level, text) => webHeading level text
  | none =>
    if isQuote line then
      "<blockquote>".toList ++ webInlineFormat (quoteText line) ++ "</blockquote>".toList
    else if isRule (trimChars line) then "<hr />".toList
    else
      match listMatch line with
      | some text => "<div class=\"list-item\">".toList ++ webInlineFormat text ++ "</div>".toList
      | none =>
        if trimChars line = [] then "<br />".toList
        else "<p>".toList ++ webInlineFormat line ++ "</p>".toList

def webCode (langLabel : List Char) (code : List (List Char)) : List Char :=
  "<div class=\"code-block\">".toList ++ langLabel ++ "<pre><code>".toList ++
    escapeHtml (joinLines code) ++ "</code></pre></div>".toList

def webBlock : Block → List Char
  | .fence codeLang code =>
    webCode (if codeLang = [] then []
      else "<span class=\"code-lang\">".toList ++ escapeHtml codeLang ++ "</span>".toList) code
  | .unclosed code => webCode [] code
  | .line line => webLine line

def markdownToWebHtml (text : List Char) : List Char :=
  joinLines ((blocks none (splitLines text)).map webBlock)

end Web

/-- The fields of a reply that are formatted. -/
structure ChatResponse where
  message : String
  thinking : Option String
  deriving DecidableEq, Repr

def thinkingQuote (thinking : List Char) : List Char :=
  "<blockquote expandable>💭 <b>Thinking</b>\n".toList ++ escapeHtml thinking ++
    "</blockquote>".toList

def formatTelegramResponse (reply : ChatResponse) : String :=
  let thinking := (reply.thinking.filter (· ≠ "")).map fun text => thinkingQuote text.toList
  let message :=
    if reply.message = "" then none else some (markdownToTelegramHtml reply.message.toList)
  String.ofList ("\n\n".toList.intercalate (thinking.toList ++ message.toList))

structure WebchatMessage where
  html : String
  thinkingHtml : Option String
  toolCallsHtml : Option String
  providerInfo : Option String
  deriving DecidableEq, Repr

def formatWebchatMessage (reply : ChatResponse) : WebchatMessage where
  html := String.ofList (markdownToWebHtml reply.message.toList)
  thinkingHtml := (reply.thinking.filter (· ≠ "")).map fun text =>
    String.ofList
      ("<details class=\"thinking-block\"><summary>💭 Thinking</summary><pre class=\"thinking-content\">".toList
        ++ escapeHtml text.toList ++ "</pre></details>".toList)
  toolCallsHtml := none
  providerInfo := none

end T560.Format
