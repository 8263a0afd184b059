import Mathlib.Data.List.SplitBy
import T560.Browser.History
import T560.Js.PropertyMap

/-!
# Cookies of the fetch engine

A tab of the fetch engine: its history, the jar every response writes and every request
reads. The jar knows names and values only.
-/

namespace T560.Browser

open Js (Runtime PropertyMap trim)

/-- The URL parser, the date parser and the public suffix list, as the fetch engine meets them:
`site` is the registrable domain of a host. -/
structure FetchEnv where
  rt : Runtime
  parse : String → Option History.Location
  hostOf : String → String
  site : String → String
  dateParse : String → Option Int

structure Tab where
  url : String
  history : List String
  historyIndex : Nat
  cookies : PropertyMap String
  deriving DecidableEq, Repr

def buildTabRecord (url : String) : Tab := ⟨url, [url], 0, []⟩

structure Request where
  method : String
  url : String
  body : String
  deriving DecidableEq, Repr

/-- The response that ends a fetch, after redirects. -/
structure Reply where
  url : String
  setCookies : List String
  now : Int
  deriving DecidableEq, Repr

variable (env : FetchEnv)

def FetchEnv.normalizeHttpUrl (value : String) : Option String :=
  (History.normalizeHttpUrl env.parse value).toOption

def splitText (sep : Char) (s : String) : List String := (s.toList.splitOn sep).map String.ofList

/-- One attribute of a `Set-Cookie` line asks for the deletion of the cookie. -/
def attrDeletes (now : Int) (attr : String) : Bool :=
  let parts := splitText '=' attr
  let key := env.rt.toLowerCase (trim (parts.headD ""))
  let value := trim ((parts.drop 1).headD "")
  (key == "max-age" &&
    match env.rt.textNumber value with
    | .fin q => q ≤ 0
    | _ => false) ||
  (key == "expires" &&
    match env.dateParse value with
    | some at_ => at_ ≤ now
    | none => false)

/-- What a `Set-Cookie` line does to the jar. -/
inductive CookieEdit where
  | skip
  | delete (name : String)
  | store (name value : String)
  deriving DecidableEq, Repr

def readSetCookie (now : Int) (raw : String) : CookieEdit :=
  let parts := splitText ';' raw
  let pair := (parts.headD "").toList
  let eq := pair.idxOf '='
  if eq = 0 ∨ eq = pair.length then .skip
  else
    let name := trim (String.ofList (pair.take eq))
    let value := trim (String.ofList (pair.drop (eq + 1)))
    if name = "" then .skip
    else if (parts.drop 1).any fun part => attrDeletes env now (trim part) then .delete name
    else .store name value

def applyEdit (jar : PropertyMap String) : CookieEdit → PropertyMap String
  | .skip => jar
  | .delete name => jar.remove name
  | .store name value => jar.put name value

def upsertTabCookies (jar : PropertyMap String) (now : Int) (setCookies : List String) : PropertyMap String :=
  setCookies.foldl (fun jar raw => applyEdit jar (readSetCookie env now raw)) jar

def renderCookies (cookies : List (String × String)) : String :=
  String.intercalate "; " (cookies.map fun c => c.1 ++ "=" ++ c.2)

def buildCookieHeader (tab : Tab) : String := renderCookies tab.cookies.entries

/-- `getSetCookie()` without the blank lines. -/
def readSetCookieHeaders (lines : List String) : List String := lines.filter fun l => trim l ≠ ""

def navigateTab (tab : Tab) (nextUrl : String) : Option Tab := do
  let url ← env.normalizeHttpUrl nextUrl
  let history := tab.history.take (tab.historyIndex + 1) ++ [url]
  return { tab with url := url, history := history, historyIndex := history.length - 1 }

def nextHistoryIndex (tab : Tab) (back : Bool) : Nat :=
  if back then tab.historyIndex - 1 else min (tab.history.length - 1) (tab.historyIndex + 1)

/-- `back` and `forward`. -/
def moveInHistory (tab : Tab) (back : Bool) : Tab :=
  if nextHistoryIndex tab back = tab.historyIndex then tab
  else { tab with
    historyIndex := nextHistoryIndex tab back
    url := tab.history.getD (nextHistoryIndex tab back) tab.url }

/-- What goes out on the wire: an empty jar sends no `Cookie` header. -/
structure Sent where
  url : String
  method : String
  body : Option String
  cookie : Option String
  deriving DecidableEq, Repr

def sentRequest (tab : Tab) (request : Option Request) : Sent where
  url := (request.map Request.url).getD tab.url
  method := (request.map Request.method).getD "GET"
  body := (request.filter fun r => r.method == "POST").map Request.body
  cookie := if buildCookieHeader tab = "" then none else some (buildCookieHeader tab)

/-- The URL of the page behind the redirects; an empty `res.url` stands for the request's. -/
def finalUrl (tab : Tab) (request : Option Request) (reply : Reply) : Option String :=
  env.normalizeHttpUrl (if reply.url = "" then (sentRequest tab request).url else reply.url)

/-- The tab behind a fetch; a fetch that fails leaves it as it was. -/
def captureTabSnapshot (tab : Tab) (request : Option Request) : Option Reply → Option Tab
  | none => none
  | some reply => do
    let url ← finalUrl env tab request reply
    return { tab with
      url := url
      cookies := upsertTabCookies env tab.cookies reply.now (readSetCookieHeaders reply.setCookies)
      history := if tab.history = [] then [] else tab.history.set tab.historyIndex url }

end T560.Browser
