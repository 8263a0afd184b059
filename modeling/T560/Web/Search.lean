import T560.Browser.Entities
import T560.Js.UriComponent

/-!
# The page of a search engine

The results are read from the links of the page. A link names its target as a parameter of a
redirecting address; the URL parser decodes the parameter, and the reader decodes it once more.
-/

namespace T560.Web.Search

open Browser (anyTag captures linkEnd replaceText tagHead untilChar untilClosing)
open Foundation (stripName)
open Js (collapse decodeURIComponent trim units)
open Rewrite (Finder replaceAll)

/-- The copy of the search module. -/
def decodeHtmlEntities (value : List Char) : List Char :=
  replaceText "&nbsp;" " " (replaceText "&#47;" "/" (replaceText "&#x2F;" "/" (replaceText "&gt;" ">"
    (replaceText "&lt;" "<" (replaceText "&amp;" "&" (replaceText "&apos;" "'" (replaceText "&#39;" "'"
      (replaceText "&quot;" "\"" value))))))))

/-- `/<name[\s\S]*?<\/name>/gi` -/
def block (name : List Char) : Finder Char Unit := fun _ text =>
  (stripName ('<' :: name) text).bind fun behind =>
    (untilClosing name behind).map fun found => ((), text.length - found.2.length)

def stripTags (value : List Char) : String :=
  let blank := fun _ : Unit => [' ']
  let visible := replaceAll anyTag blank
    (replaceAll (block "style".toList) blank (replaceAll (block "script".toList) blank value))
  trim (collapse (String.ofList (decodeHtmlEntities visible)))

section Address

/-- What the reader takes from a parsed address; `uddg` is the first parameter of that name. -/
structure ResultUrl where
  protocol : String
  hostname : String
  pathname : String
  uddg : Option String
  href : String

/-- A character of a parameter that is written by `encodeURIComponent`. -/
def isComponentChar (c : Char) : Bool := Js.isUnreserved c || c = '%'

/-- Parameters behind another one. -/
def IsMore (more : List Char) : Prop :=
  more = [] ∨ more.head? = some '&' ∧ ∀ c ∈ more, 32 < c.toNat ∧ c.toNat < 127 ∧ c ∉ ['"', '#', '<', '>']

def redirectAddress (value more : List Char) : List Char :=
  "//duckduckgo.com/l/?uddg=".toList ++ value ++ more

/-- The URL parser. Of the address of a redirect it knows the host and decodes the parameter. -/
structure UrlApi where
  parse : String → Option ResultUrl
  parse_redirect : ∀ value more, (∀ c ∈ value, isComponentChar c = true) → value ≠ [] → IsMore more →
    ∃ url, parse (String.ofList ("https:".toList ++ redirectAddress value more)) = some url ∧
      url.hostname = "duckduckgo.com" ∧ url.pathname = "/l/" ∧
      url.uddg = some (String.ofList (Js.percentDecode value))

def toAbsoluteDuckUrl (href : String) : String :=
  let raw := trim href
  if raw = "" then ""
  else if raw.toList.take 2 = ['/', '/'] then "https:" ++ raw
  else if raw.toList.head? = some '/' then "https://duckduckgo.com" ++ raw
  else raw

/-- `/^https?:\/\//i` -/
def isHttpAddress (text : List Char) : Bool :=
  (stripName "http://".toList text).isSome || (stripName "https://".toList text).isSome

/-- `/^https?:$/i` -/
def isHttpProtocol (protocol : String) : Bool :=
  stripName "http:".toList protocol.toList = some [] || stripName "https:".toList protocol.toList = some []

variable (rt : Js.Runtime) (api : UrlApi)

/-- The target of a redirect: nothing when there is none, an error when it is not decoded. -/
def redirectTarget (url : ResultUrl) : Except Unit (Option String) :=
  match url.uddg with
  | none => .ok none
  | some redirected =>
    if redirected = "" then .ok none
    else
      match decodeURIComponent redirected.toList with
      | none => .error ()
      | some decoded => .ok (if isHttpAddress decoded then some (String.ofList decoded) else none)

def resolveResultUrl (href : String) : String :=
  let raw := trim href
  if raw = "" then ""
  else
    match api.parse (toAbsoluteDuckUrl raw) with
    | none => ""
    | some url =>
      let direct := if isHttpProtocol url.protocol then url.href else ""
      if "duckduckgo.com".toList <:+: (rt.toLowerCase url.hostname).toList then
        match redirectTarget url with
        | .error _ => ""
        | .ok (some target) => target
        | .ok none => if url.pathname = "/l/" ∨ url.pathname = "/l" then "" else direct
      else direct

end Address

section Results

structure AnchorMatch where
  href : List Char
  inner : List Char
  /-- The length of the text from the match on, and of the match. -/
  remaining : Nat
  covered : Nat

/-- The address behind the first `href="` that has one and is in a complete link, its text and what is
behind the link. -/
def anchorBody : List Char → Option ((List Char × List Char) × List Char)
  | [] => none
  | c :: text =>
    let here := (stripName "href=\"".toList (c :: text)).bind fun behind =>
      (untilChar '"' behind).bind fun (href, behind) =>
        if href = [] then none else (linkEnd behind).map fun (inner, rest) => ((href, inner), rest)
    match here with
    | some found => some found
    | none => if c = '>' then none else anchorBody text

/-- `/<a\b([^>]*?)href="([^"]+)"([^>]*)>([\s\S]*?)<\/a>/gi` -/
def anchorPattern : Finder Char AnchorMatch := fun _ text =>
  (tagHead ['a'] text).bind fun behind =>
    (anchorBody behind).map fun (found, rest) =>
      (⟨found.1, found.2, text.length, text.length - rest.length⟩, text.length - rest.length)

structure SearchResult where
  title : String
  url : String
  description : String

/-- `Math.max(1, Math.min(20, Number(count) || 8))` -/
def resultLimit : Js.Num → ℚ
  | .fin q => if q = 0 then 8 else max 1 (min 20 q)
  | .nan => 8
  | .posInf => 20
  | .negInf => 1

structure ResultState where
  out : List SearchResult := []
  seen : List String := []

variable (rt : Js.Runtime) (api : UrlApi)
  -- the text near a link: the page, and where the link starts and ends
  (extractSnippetNear : List Char → Nat → Nat → String)

/-- One round of the loop; a full list stays as it is. -/
def addResult (source : List Char) (limit : ℚ) (state : ResultState) (found : AnchorMatch) : ResultState :=
  let title := stripTags found.inner
  let url := resolveResultUrl rt api (String.ofList found.href)
  let start := source.length - found.remaining
  if limit ≤ state.out.length then state
  else if title = "" ∨ (units title).length < 2 then state
  else if url = "" then state
  else if url ∈ state.seen then state
  else
    { out := state.out ++ [⟨title, url, extractSnippetNear source start (start + found.covered)⟩]
      seen := state.seen ++ [url] }

def parseDuckDuckGoHtml (html : List Char) (count : Js.Num) : List SearchResult :=
  ((captures anchorPattern html).foldl (addResult rt api extractSnippetNear html (resultLimit count)) {}).out

end Results

end T560.Web.Search
