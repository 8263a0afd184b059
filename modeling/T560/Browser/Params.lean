import T560.Js.Value

/-!
# Arguments of a browser call

How the tool adapter and the browser tool bring the arguments of a call into the form the
actions read: alias names, and the fields of a nested `request` object.
-/

namespace T560.Browser

open Js (Value Runtime JsError trim)
open Js.Value (coalesce trimmedText str?)

variable (rt : Runtime)

/-! ## The tool adapter -/

def toolNameAliases : List (String × String) := [("bash", "exec"), ("apply-patch", "apply_patch")]

def normalizeToolName (name : String) : String :=
  let normalized := rt.toLowerCase (trim name)
  (toolNameAliases.lookup normalized).getD normalized

def renameField (old new : String) (record : Value) : Value :=
  match record.get? old, record.get? new with
  | some v, none => (record.set new v).erase old
  | _, _ => record

/-- A text field that is missing takes the first of the given values if that is a text. -/
def fillText (key : String) (fallback : List (Option Value)) (record : Value) : Value :=
  match record.get? key, str? (coalesce fallback) with
  | none, some s => record.set key (.str s)
  | _, _ => record

def normalizeExecArgs (record : Value) : Value :=
  let record := fillText "command" (["cmd", "bash", "shell", "script", "run", "input"].map record.get?)
    record
  if record.get? "cwd" = none then
    fillText "workdir" (["dir", "directory", "path"].map record.get?) record
  else record

def normalizeProcessArgs (record : Value) : Value :=
  fillText "action" (["op", "operation", "command"].map record.get?) record

def normalizeBrowserArgs (record : Value) : Except JsError Value := do
  let actionRaw := rt.toLowerCase (← trimmedText rt [record.get? "action"])
  return if actionRaw = "go" then record.set "action" (.str "navigate")
    else if actionRaw = "goto" ∨ actionRaw = "visit" then record.set "action" (.str "open")
    else record

def indexedFields (xs : List Value) : List (String × Value) :=
  xs.zipIdx.map fun x => (toString x.2, x.1)

def normalizeToolArgs (toolName : String) (args : Value) : Except JsError Value := do
  let name := normalizeToolName rt toolName
  match args with
  | .null | .bool _ | .num _ => return .obj []
  | .str s =>
    return if name = "exec" then .obj [("command", .str s)]
      else if name = "process" then .obj [("action", .str s)]
      else .obj [("input", .str s)]
  | .arr xs => normalizeRecord name (.obj (indexedFields xs))
  | .obj fields => normalizeRecord name (.obj fields)
where
  normalizeRecord (name : String) (record : Value) : Except JsError Value := do
    let record := renameField "new_string" "newText"
      (renameField "old_string" "oldText" (renameField "file_path" "path" record))
    if name = "exec" then return normalizeExecArgs record
    if name = "process" then return normalizeProcessArgs record
    if name = "browser" then normalizeBrowserArgs rt record
    else return record

/-! ## The browser tool -/

/-- `if (params[to] === undefined && source[from] !== undefined) params[to] = source[from]`. -/
def adopt (source : Value) (params : Value) (entry : String × String) : Value :=
  match params.get? entry.1, source.get? entry.2 with
  | none, some v => params.set entry.1 v
  | _, _ => params

/-- The same for the trimmed text of a field, when that is not blank. -/
def adoptText (params : Value) (entry : String × String) : Except JsError Value := do
  let text ← trimmedText rt [params.get? entry.2]
  return if text ≠ "" ∧ params.get? entry.1 = none then params.set entry.1 (.str text) else params

def textAliases : List (String × String) :=
  [("tabId", "targetId"), ("url", "targetUrl"), ("selector", "element"), ("ref", "inputRef")]

def ownAliases : List (String × String) :=
  [("networkIdle", "network_idle"), ("networkIdleTimeoutMs", "network_idle_timeout_ms"),
    ("networkIdleTimeoutMs", "networkIdleTimeout"), ("networkIdleTimeoutMs", "network_idle_timeout")]

def requestAliases : List (String × String) :=
  [("target", "target"), ("node", "node"), ("profile", "profile"), ("kind", "kind"),
    ("tabId", "targetId"), ("url", "targetUrl"), ("ref", "ref"), ("ref", "inputRef"),
    ("selector", "selector"), ("selector", "element"), ("button", "button"),
    ("doubleClick", "doubleClick"), ("modifiers", "modifiers"), ("value", "text"),
    ("submit", "submit"), ("slowly", "slowly"), ("key", "key"), ("startRef", "startRef"),
    ("endRef", "endRef"), ("values", "values"), ("fields", "fields"), ("formIndex", "formIndex"),
    ("fieldName", "fieldName"), ("value", "value"), ("path", "path"), ("paths", "paths"),
    ("linkIndex", "linkIndex"), ("width", "width"), ("height", "height"), ("timeMs", "timeMs"),
    ("allowEngineFallback", "allowEngineFallback"), ("maxRetries", "maxRetries"),
    ("expression", "fn"), ("accept", "accept"), ("once", "once"), ("promptText", "promptText"),
    ("format", "format"), ("printBackground", "printBackground"), ("deltaX", "deltaX"),
    ("deltaY", "deltaY"), ("toTop", "toTop"), ("toBottom", "toBottom"),
    ("waitForSelector", "waitForSelector"), ("networkIdle", "networkIdle"),
    ("networkIdle", "network_idle"), ("networkIdleTimeoutMs", "networkIdleTimeoutMs"),
    ("networkIdleTimeoutMs", "network_idle_timeout_ms"),
    ("networkIdleTimeoutMs", "networkIdleTimeout"),
    ("networkIdleTimeoutMs", "network_idle_timeout"), ("waitForRequestUrl", "waitForRequestUrl"),
    ("waitForRequestMethod", "waitForRequestMethod"), ("waitForStatus", "waitForStatus"),
    ("waitForRequestBodyIncludes", "waitForRequestBodyIncludes"),
    ("waitForResponseBodyIncludes", "waitForResponseBodyIncludes"), ("urlContains", "urlContains"),
    ("state", "state"), ("clear", "clear"), ("level", "level"), ("limit", "limit")]

/-- The text of a `wait` request is what to wait for. -/
def adoptWaitText (req params : Value) : Except JsError Value := do
  if params.get? "waitForText" = none ∧ (req.get? "text").isSome then
    let kind := rt.toLowerCase (← trimmedText rt [req.get? "kind"])
    return if kind = "wait" then adopt req params ("waitForText", "text") else params
  else return params

def normalizeBrowserActionParams (input : Value) : Except JsError Value := do
  let params ← textAliases.foldlM (adoptText rt) input
  let params := ownAliases.foldl (fun p => adopt p p) params
  match params.record? "request" with
  | none => return params
  | some req =>
    let params := requestAliases.foldl (adopt req) params
    let params ← adoptWaitText rt req params
    return adopt req params ("textGone", "textGone")

end T560.Browser
