import T560.Browser.Forms
import T560.Browser.History
import T560.Foundation.FieldSearch
import T560.Foundation.Occurrence
import T560.Foundation.Rewrite
import T560.Js.Text

/-!
# Links and forms of a page

What the fetch engine reads from the text of a page. Every pattern is searched for from the left,
and the next search starts behind the last match.
-/

namespace T560.Browser

open Foundation (isWordChar stripName)
open History (Location normalizeHttpUrl)
open Js (Runtime PropertyMap trim collapse isSpace units)
open Rewrite (Finder)

/-- What the matches of a pattern capture. -/
def captures {γ : Type} (find : Finder Char γ) (text : List Char) : List γ :=
  (Rewrite.pieces find 0 none text).filterMap Sum.getRight?

section Patterns

/-- What is behind `<name\b`. -/
def tagHead (name : List Char) : List Char → Option (List Char)
  | '<' :: text =>
    (stripName name text).bind fun behind => if behind.head?.any isWordChar then none else some behind
  | _ => none

/-- What comes before the next `c`, and what comes behind it. -/
def untilChar (c : Char) (text : List Char) : Option (List Char × List Char) :=
  match text.dropWhile (· ≠ c) with
  | [] => none
  | _ :: rest => some (text.takeWhile (· ≠ c), rest)

/-- What comes before the next `</name>`, and what comes behind it. -/
def untilClosing (name : List Char) : List Char → Option (List Char × List Char)
  | [] => none
  | c :: text =>
    match stripName (['<', '/'] ++ name ++ ['>']) (c :: text) with
    | some rest => some ([], rest)
    | none => (untilClosing name text).map fun (body, rest) => (c :: body, rest)

/-- `/<name\b([^>]*)>([\s\S]*?)<\/name>/gi` -/
def pairedTag (name : List Char) : Finder Char (List Char × List Char) := fun _ text =>
  (tagHead name text).bind fun behind =>
    (untilChar '>' behind).bind fun (attrs, inner) =>
      (untilClosing name inner).map fun (body, rest) => ((attrs, body), text.length - rest.length)

/-- `/<input\b([^>]*)\/?>/gi`; the group takes a slash at the end as well. -/
def inputTag : Finder Char (List Char) := fun _ text =>
  (tagHead "input".toList text).bind fun behind =>
    (untilChar '>' behind).map fun (attrs, rest) => (attrs, text.length - rest.length)

def isAttributeChar (c : Char) : Bool := !isSpace c && c ∉ ['"', '\'', '=', '<', '>', Char.ofNat 96]

/-- A value in double quotes, in single quotes, or without any. -/
def attributeValue : List Char → Option (List Char × List Char)
  | '"' :: text => untilChar '"' text
  | '\'' :: text => untilChar '\'' text
  | text =>
    if text.takeWhile isAttributeChar = [] then none
    else some (text.takeWhile isAttributeChar, text.dropWhile isAttributeChar)

/-- `\s*=\s*` in front of a value. -/
def assignment (text : List Char) : Option (List Char × List Char) :=
  match text.dropWhile isSpace with
  | '=' :: text => attributeValue (text.dropWhile isSpace)
  | _ => none

def attributePair : Finder Char (List Char × Option (List Char)) := fun _ text =>
  let name := text.takeWhile isAttributeChar
  if name = [] then none
  else
    match assignment (text.dropWhile isAttributeChar) with
    | some (value, rest) => some ((name, some value), text.length - rest.length)
    | none => some ((name, none), name.length)

/-- `<[^>]+>` -/
def anyTag : Finder Char Unit := fun _ text =>
  match text with
  | '<' :: text =>
    (untilChar '>' text).bind fun (inner, _) => if inner = [] then none else some ((), inner.length + 2)
  | _ => none

def isHrefChar (c : Char) : Bool := !isSpace c && c ∉ ['"', '\'', '<', '>', Char.ofNat 96]

/-- A value of an address: quoted ones are not empty. -/
def hrefValue : List Char → Option (List Char × List Char)
  | '"' :: text => (untilChar '"' text).filter fun found => found.1 ≠ []
  | '\'' :: text => (untilChar '\'' text).filter fun found => found.1 ≠ []
  | text =>
    if text.takeWhile isHrefChar = [] then none
    else some (text.takeWhile isHrefChar, text.dropWhile isHrefChar)

/-- The rest of a link behind its address: the text, and what is behind the link. -/
def linkEnd (text : List Char) : Option (List Char × List Char) :=
  (untilChar '>' text).bind fun (_, inner) => untilClosing ['a'] inner

/-- The first address in the tag behind which the link is complete. -/
def linkBody : List Char → Option ((List Char × List Char) × List Char)
  | [] => none
  | c :: text =>
    let here := (stripName "href".toList (c :: text)).bind fun behind =>
      match behind.dropWhile isSpace with
      | '=' :: behind =>
        (hrefValue (behind.dropWhile isSpace)).bind fun (href, behind) =>
          (linkEnd behind).map fun (inner, rest) => ((href, inner), rest)
      | _ => none
    match here with
    | some found => some found
    | none => if c = '>' then none else linkBody text

/-- The pattern of a link, with its address and its text. -/
def linkTag : Finder Char (List Char × List Char) := fun _ text =>
  (tagHead ['a'] text).bind fun behind =>
    (linkBody behind).map fun (found, rest) => (found, text.length - rest.length)

end Patterns

section Texts

def replaceText (find replacement : String) (text : List Char) : List Char :=
  Occurrence.replaced find.toList replacement.toList 0 text

def decodeHtmlEntities (value : List Char) : List Char :=
  replaceText "&nbsp;" " " (replaceText "&#47;" "/" (replaceText "&#x2F;" "/" (replaceText "&gt;" ">"
    (replaceText "&lt;" "<" (replaceText "&amp;" "&" (replaceText "&apos;" "'" (replaceText "&#39;" "'"
      (replaceText "&quot;" "\"" value))))))))

/-- The text of an element without its tags. -/
def elementText (inner : List Char) : String :=
  trim (collapse (String.ofList (decodeHtmlEntities (Rewrite.replaceAll anyTag (fun _ => [' ']) inner))))

end Texts

variable (rt : Runtime)

/-- The attributes of a tag: of two with one name the last counts. -/
def parseHtmlAttributes (raw : List Char) : PropertyMap String :=
  (captures attributePair raw).foldl (fun attrs found =>
    let key := rt.toLowerCase (trim (String.ofList found.1))
    if key = "" then attrs else attrs.put key (String.ofList (found.2.getD []))) []

/-- `new URL(raw, baseUrl)`; without a base the base is empty. -/
structure UrlReader where
  parse : String → String → Option Location

variable (urls : UrlReader)

section Links

structure LinkScan where
  out : List BrowserLink := []
  seen : List String := []

def readLink (pageUrl : String) (st : LinkScan) (found : List Char × List Char) : LinkScan :=
  let href := trim (String.ofList found.1)
  if href = "" then st
  else
    match normalizeHttpUrl (urls.parse · pageUrl) href with
    | .error _ => st
    | .ok resolved =>
      if resolved ∈ st.seen then st
      else
        let st := { st with seen := resolved :: st.seen }
        let text := elementText found.2
        if text = "" ∨ (units text).length < 2 then st
        else { st with out := st.out ++ [⟨st.out.length + 1, text, resolved⟩] }

def extractLinks (html pageUrl : String) (maxLinks : Nat) : List BrowserLink :=
  ((captures linkTag html.toList).foldl
    (fun st found => if st.out.length < maxLinks then readLink urls pageUrl st found else st) {}).out

end Links

section Fields

structure SelectScan where
  fallback : String := ""
  chosen : Option String := none

def readOption (st : SelectScan) (found : List Char × List Char) : SelectScan :=
  if st.chosen.isSome then st
  else
    let attrs := parseHtmlAttributes rt found.1
    let value := (attrs.lookup "value").getD (elementText found.2)
    { fallback := if st.fallback = "" then value else st.fallback,
      chosen := if (attrs.lookup "selected").isSome then some value else none }

def parseSelectValue (selectHtml : List Char) : String :=
  let st := (captures (pairedTag "option".toList) selectHtml).foldl (readOption rt) {}
  st.chosen.getD st.fallback

def UNFILLED_TYPES : List String := ["submit", "button", "image", "reset", "file"]

def readInput (raw : List Char) : Option BrowserFormField :=
  let attrs := parseHtmlAttributes rt raw
  let name := trim ((attrs.lookup "name").getD "")
  if name = "" then none
  else
    let written := rt.toLowerCase (trim ((attrs.lookup "type").getD "text"))
    let type := if written = "" then "text" else written
    if type ∈ UNFILLED_TYPES then none
    else some ⟨name, type, (attrs.lookup "value").getD "", (attrs.lookup "required").isSome⟩

/-- A field that is written as a pair of tags. -/
def readPaired (type : String) (valueOf : List Char → String) (found : List Char × List Char) :
    Option BrowserFormField :=
  let attrs := parseHtmlAttributes rt found.1
  let name := trim ((attrs.lookup "name").getD "")
  if name = "" then none
  else some ⟨name, type, valueOf found.2, (attrs.lookup "required").isSome⟩

def parseFormFields (formHtml : List Char) : List BrowserFormField :=
  (captures inputTag formHtml).filterMap (readInput rt) ++
    (captures (pairedTag "textarea".toList) formHtml).filterMap
      (readPaired rt "textarea" fun inner => String.ofList (decodeHtmlEntities inner)) ++
    (captures (pairedTag "select".toList) formHtml).filterMap
      (readPaired rt "select" (parseSelectValue rt))

def readForm (pageUrl : String) (index : Nat) (found : List Char × List Char) : BrowserForm :=
  let attrs := parseHtmlAttributes rt found.1
  let method := rt.toLowerCase (trim ((attrs.lookup "method").getD "get"))
  let written := (attrs.lookup "action").getD ""
  { index := index
    method := if method = "post" then .post else .get
    action :=
      match normalizeHttpUrl (urls.parse · pageUrl) (if written = "" then pageUrl else written) with
      | .ok url => url
      | .error _ => pageUrl
    fields := parseFormFields rt found.2 }

def parseForms (html pageUrl : String) : List BrowserForm :=
  ((captures (pairedTag "form".toList) html.toList).zipIdx 1).map fun (found, index) =>
    readForm rt urls pageUrl index found

end Fields

end T560.Browser
