import T560.Browser.Params

/-!
# Clicks, submissions and Enter

Which calls of the browser tool end in a click, a submitted form or a pressed Enter key. The
dispatch over actions and `act` kinds is the tool's; what the page decides is a parameter.
-/

namespace T560.Browser

open Js (Value Runtime JsError)
open Js.Value (coalesce trimmedText)

/-- What the tab decides about an action: whether its branch comes to the click, submission or key
press (the tab, engine and element are there and no check throws), whether filling the field
clicks it (a radio button, or a date input that refuses the text), which key texts of `press`
mean Enter, and which scripts of `evaluate` click or submit something in the page. -/
structure Page where
  lands : String → Value → Bool
  clicksField : Value → Bool
  pressesEnter : String → Bool
  scriptSubmits : String → Bool

variable (rt : Runtime) (page : Page)

def actionAliases : List (String × String) :=
  [("wait-for-request", "wait_for_request"), ("waitforrequest", "wait_for_request"),
    ("wait-for-network", "wait_for_request"), ("captcha", "challenge"), ("human-check", "challenge"),
    ("human_check", "challenge"), ("human-verification", "challenge")]

def toolAction (params : Value) : Except JsError String := do
  let actionRaw := rt.toLowerCase (← trimmedText rt [params.get? "action"])
  return (actionAliases.lookup actionRaw).getD actionRaw

/-- The branch of one action. `type` submits only when `submit` is true; `evaluate` runs the caller's
script in the page. -/
def performs (action : String) (params : Value) : Except JsError Bool := do
  if action ∈ ["click", "submit", "select", "login", "mfa"] then return page.lands action params
  else if action = "press" then
    let key ← trimmedText rt [params.get? "key"]
    return key ≠ "" && page.lands action params && page.pressesEnter key
  else if action = "type" then
    return (page.lands action params && params.get? "submit" = some (.bool true)) ||
      page.clicksField params
  else if action = "fill" then return page.clicksField params
  else if action = "evaluate" then
    let expression ← trimmedText rt [params.get? "expression"]
    return expression ≠ "" && page.lands action params && page.scriptSubmits expression
  else return false

def actKinds : List String :=
  ["click", "type", "fill", "submit", "navigate", "wait", "wait_for_request", "hover", "press",
    "select", "drag", "evaluate", "upload", "dialog", "console", "downloads", "pdf", "scroll",
    "resize", "login", "mfa", "challenge", "close"]

/-- `tool.execute` on an action that is not `act`. -/
def executeOnce (rawParams : Value) : Except JsError Bool := do
  let params ← normalizeBrowserActionParams rt rawParams
  performs rt page (← toolAction rt params) params

/-- The object entries of `fields`. -/
def fieldRows (params : Value) : List Value :=
  match params.get? "fields" with
  | some (.arr rows) => rows.filter Value.isObject
  | _ => []

/-- The arguments of the `fill` an entry of `fields` stands for. -/
def fillParams (params row : Value) : Value :=
  let filled := (params.set "action" (.str "fill")).erase "fields"
  let filled := filled.assign "ref" (coalesce [row.get? "ref", row.get? "fieldRef", params.get? "ref"])
  let filled := filled.assign "selector" (coalesce [row.get? "selector", params.get? "selector"])
  let filled := filled.assign "formIndex" (coalesce [row.get? "formIndex", params.get? "formIndex"])
  let filled := filled.assign "fieldName"
    (coalesce [row.get? "fieldName", row.get? "name", params.get? "fieldName"])
  filled.assign "value" (coalesce [row.get? "value", row.get? "text", some (.str "")])

def executeFills (params : Value) : List Value → Except JsError Bool
  | [] => .ok false
  | row :: rows => do
    if ← executeOnce rt page (fillParams params row) then return true
    executeFills params rows

def executeAct (params : Value) : Except JsError Bool := do
  let kindRaw := rt.toLowerCase (← trimmedText rt [params.get? "kind", some (.str "click")])
  let kind := String.ofList (kindRaw.toList.map fun c => if c = '-' then '_' else c)
  if kind = "fill" ∧ fieldRows params ≠ [] then executeFills rt page params (fieldRows params)
  else if kind ∈ actKinds then executeOnce rt page (params.set "action" (.str kind))
  else return false

def execute (rawParams : Value) : Except JsError Bool := do
  let params ← normalizeBrowserActionParams rt rawParams
  let action ← toolAction rt params
  if action = "act" then executeAct rt page params else performs rt page action params

/-- A call that throws on the way does nothing to the page. -/
def wouldSubmit (args : Value) : Bool :=
  match normalizeToolArgs rt "browser" args >>= execute rt page with
  | .ok submits => submits
  | .error _ => false

end T560.Browser
