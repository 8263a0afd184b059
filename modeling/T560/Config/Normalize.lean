import T560.Config.Types

/-!
# Normalizing the configuration

`normalizeConfig` and the normalizers it is made of, over whatever value the configuration
file holds. Converting an object that has its own `toString` raises, and the whole
normalization with it.
-/

namespace T560.Config

open Js (Value PropertyMap JsError Runtime)
open Js.Value (trimmedText number)

/-- `raw` when it is an object or an array. -/
def objectOf (raw : Option Value) : Option Value := raw.filter Value.isObject

def stringOf (raw : Option Value) : Option String := Value.str? raw

/-- The trimmed text of a string that is not blank. -/
def trimmedOf (raw : Option Value) : Option String :=
  ((stringOf raw).map Js.trim).filter fun s => s != ""

def boolOf : Option Value → Option Bool
  | some (.bool b) => some b
  | _ => none

/-- `Math.max(least, Math.floor(raw))` of a finite number. -/
def flooredOf (least : Int) : Option Value → Option Int
  | some (.num (.fin q)) => some (max least ⌊q⌋)
  | _ => none

/-- The value of `Number(raw)` when it is finite and positive. -/
def positiveOf : Js.Num → Option ℚ
  | .fin q => if 0 < q then some q else none
  | _ => none

/-- The properties that are own after `for (…) result[key] = value`, in the engine's order. -/
def assignAll {α : Type} (entries : List (String × α)) : PropertyMap α :=
  PropertyMap.entries (entries.foldl (fun record f => PropertyMap.put record f.1 f.2) [])

/-- `Object.keys(record).length > 0 ? record : undefined`. -/
def nonEmptyRecord {α : Type} (record : PropertyMap α) : Option (PropertyMap α) :=
  if record.isEmpty then none else some record

variable (rt : Runtime)

/-- `raw.map((value) => String(value).trim()).filter(Boolean)`. -/
def trimmedTexts (items : List Value) : Except JsError (List String) := do
  let texts ← items.mapM fun v => v.text rt
  return (texts.map Js.trim).filter fun s => s != ""

def normalizeStringList (raw : Option Value) : Except JsError (Option (List String)) :=
  match raw with
  | some (.arr items) => do
    let values ← trimmedTexts rt items
    return if values.isEmpty then none else some values
  | _ => .ok none

def normalizeToolPolicy (raw : Option Value) : Except JsError (Option ToolPolicyConfig) :=
  match objectOf raw with
  | none => .ok none
  | some obj => do
    let allow ← normalizeStringList rt (obj.get? "allow")
    let deny ← normalizeStringList rt (obj.get? "deny")
    return if allow.isNone && deny.isNone then none else some { allow, deny }

def parseAuthMode (authModeRaw : String) : ProviderAuthMode :=
  if authModeRaw = "oauth" then .oauth else if authModeRaw = "token" then .token else .api_key

/-- `Object.fromEntries` of the headers with a name and a value that are not blank. -/
def normalizeHeaders (raw : Option Value) : Except JsError (Option (PropertyMap String)) :=
  match objectOf raw with
  | none => .ok none
  | some obj => do
    let pairs ← obj.entries.mapM fun f => do return (f.1, ← f.2.text rt)
    let headers := pairs.filter fun f => Js.trim f.1 != "" && Js.trim f.2 != ""
    return nonEmptyRecord (PropertyMap.entries headers)

def normalizeModels (raw : Option Value) : Except JsError (Option (List String)) :=
  match raw with
  | some (.arr items) => do return some (← trimmedTexts rt items)
  | _ => .ok none

/-- One entry of the providers. -/
def normalizeProfile (providerId : String) (obj : Value) : Except JsError ProviderProfile := do
  let authModeRaw ← trimmedText rt [obj.get? "authMode", some (.str "api_key")]
  let models ← normalizeModels rt (obj.get? "models")
  let headers ← normalizeHeaders rt (obj.get? "headers")
  return {
    enabled := obj.get? "enabled" != some (.bool false)
    provider := (trimmedOf (obj.get? "provider")).getD providerId
    authMode := parseAuthMode authModeRaw
    apiKey := stringOf (obj.get? "apiKey")
    oauthToken := stringOf (obj.get? "oauthToken")
    token := stringOf (obj.get? "token")
    baseUrl := trimmedOf (obj.get? "baseUrl")
    api := trimmedOf (obj.get? "api")
    headers
    compat := objectOf (obj.get? "compat")
    models }

def normalizeProviders (raw : Option Value) :
    Except JsError (Option (PropertyMap ProviderProfile)) :=
  match objectOf raw with
  | none => .ok none
  | some obj => do
    let profiles ← (obj.entries.filter fun f => f.2.isObject).mapM fun f => do
      return (f.1, ← normalizeProfile rt f.1 f.2)
    return nonEmptyRecord (assignAll profiles)

def hasRealValue (value : Option String) : Bool :=
  match value with
  | none => false
  | some s =>
    let normalized := rt.toLowerCase (Js.trim s)
    normalized != "" && normalized != "set-me" && normalized != "change-me" && normalized != "todo"

def parseSlot (value : Option Value) : Option RoutingTarget :=
  (objectOf value).bind fun slot =>
    let provider := ((stringOf (slot.get? "provider")).map Js.trim).getD ""
    let model := ((stringOf (slot.get? "model")).map Js.trim).getD ""
    if !hasRealValue rt (some provider) || !hasRealValue rt (some model) then none
    else some { provider, model }

def normalizeRouting (raw : Option Value) : Option RoutingConfig :=
  (objectOf raw).bind fun obj =>
    let next : RoutingConfig := {
      default := parseSlot rt (obj.get? "default")
      planning := parseSlot rt (obj.get? "planning")
      coding := parseSlot rt (obj.get? "coding") }
    if next.default.isSome || next.planning.isSome || next.coding.isSome then some next else none

def parseProfile (profileRaw : String) : Option ToolProfileId :=
  if profileRaw = "minimal" then some .minimal
  else if profileRaw = "coding" then some .coding
  else if profileRaw = "messaging" then some .messaging
  else if profileRaw = "full" then some .full
  else none

def parseSearchProvider (providerRaw : String) : Option WebSearchProvider :=
  if providerRaw = "duckduckgo" then some .duckduckgo
  else if providerRaw = "brave" then some .brave
  else none

def normalizeByProvider (raw : Option Value) :
    Except JsError (Option (PropertyMap ToolPolicyConfig)) :=
  match objectOf raw with
  | none => .ok none
  | some obj => do
    let policies ← obj.entries.mapM fun f => do return (f.1, ← normalizeToolPolicy rt (some f.2))
    let kept := policies.filterMap fun f => f.2.map fun policy => (f.1, policy)
    return nonEmptyRecord (assignAll kept)

def normalizeSearch (raw : Option Value) : Except JsError (Option WebSearchToolConfig) :=
  match objectOf raw with
  | none => .ok none
  | some obj => do
    let providerRaw ← trimmedText rt [obj.get? "provider"]
    return some {
      enabled := boolOf (obj.get? "enabled")
      provider := parseSearchProvider (rt.toLowerCase providerRaw)
      apiKey := trimmedOf (obj.get? "apiKey")
      timeoutMs := flooredOf 1000 (obj.get? "timeoutMs")
      maxResults := flooredOf 1 (obj.get? "maxResults")
      region := trimmedOf (obj.get? "region")
      fetchTop := flooredOf 0 (obj.get? "fetchTop")
      fetchMaxBytes := flooredOf 10000 (obj.get? "fetchMaxBytes") }

def normalizeFetch (raw : Option Value) : Option WebFetchToolConfig :=
  (objectOf raw).map fun obj => {
    enabled := boolOf (obj.get? "enabled")
    timeoutMs := flooredOf 1000 (obj.get? "timeoutMs")
    maxBytes := flooredOf 10000 (obj.get? "maxBytes") }

def normalizeWeb (raw : Option Value) : Except JsError (Option WebToolsConfig) :=
  match objectOf raw with
  | none => .ok none
  | some obj => do
    let search ← normalizeSearch rt (obj.get? "search")
    return some { search, fetch := normalizeFetch (obj.get? "fetch") }

def normalizeFs (raw : Option Value) : Option FsConfig :=
  (objectOf raw).map fun obj => { workspaceOnly := boolOf (obj.get? "workspaceOnly") }

/-- `Number(raw)` of a number, finite or not. -/
def numOf : Option Value → Option Js.Num
  | some (.num n) => some n
  | _ => none

def normalizeExec (raw : Option Value) : Option ExecConfig :=
  (objectOf raw).map fun obj => {
    timeoutSec := numOf (obj.get? "timeoutSec")
    allowBackground := boolOf (obj.get? "allowBackground") }

def normalizeSelfProtection (raw : Option Value) : Except JsError (Option SelfProtectionConfig) :=
  match objectOf raw with
  | none => .ok none
  | some obj => do
    let protectedPaths ← normalizeStringList rt (obj.get? "protectedPaths")
    return some {
      enabled := boolOf (obj.get? "enabled")
      installRoot := trimmedOf (obj.get? "installRoot")
      protectedPaths }

def normalizeTools (raw : Option Value) : Except JsError (Option ToolsConfig) :=
  match objectOf raw with
  | none => .ok none
  | some obj => do
    let byProvider ← normalizeByProvider rt (obj.get? "byProvider")
    let profileRaw ← trimmedText rt [obj.get? "profile"]
    let web ← normalizeWeb rt (obj.get? "web")
    let allow ← normalizeStringList rt (obj.get? "allow")
    let alsoAllow ← normalizeStringList rt (obj.get? "alsoAllow")
    let deny ← normalizeStringList rt (obj.get? "deny")
    let runtime ← normalizeToolPolicy rt (obj.get? "runtime")
    let selfProtection ← normalizeSelfProtection rt (obj.get? "selfProtection")
    return some {
      dangerouslyUnrestricted := boolOf (obj.get? "dangerouslyUnrestricted")
      profile := parseProfile (rt.toLowerCase profileRaw)
      allow, alsoAllow, deny, byProvider, runtime
      fs := normalizeFs (obj.get? "fs")
      exec := normalizeExec (obj.get? "exec")
      web, selfProtection }

def normalizeSkillsEntries (raw : Option Value) : Option (PropertyMap SkillsEntryConfig) :=
  (objectOf raw).bind fun obj =>
    nonEmptyRecord (assignAll ((obj.entries.filter fun f => f.2.isObject).map fun f =>
      (f.1, { enabled := boolOf (f.2.get? "enabled") })))

def normalizeSkills (raw : Option Value) : Except JsError (Option SkillsConfig) :=
  match objectOf raw with
  | none => .ok none
  | some obj => do
    let allow ← normalizeStringList rt (obj.get? "allow")
    let dirs ← normalizeStringList rt (obj.get? "dirs")
    return some { allow, dirs, entries := normalizeSkillsEntries (obj.get? "entries") }

/-- A budget of zero tokens counts as none when there is no cost budget either. -/
def usageOf (tokenBudget : Option Int) (costBudgetUsd : Option ℚ) : Option UsageConfig :=
  if (tokenBudget = none ∨ tokenBudget = some 0) ∧ costBudgetUsd = none then none
  else some { tokenBudget, costBudgetUsd }

def normalizeUsage (raw : Option Value) : Except JsError (Option UsageConfig) :=
  match raw with
  | some (.obj fields) => do
    let obj := Value.obj fields
    let tokenBudgetNum ← number rt (obj.get? "tokenBudget")
    let costBudgetUsdNum ← number rt (obj.get? "costBudgetUsd")
    return usageOf ((positiveOf tokenBudgetNum).map Int.floor) (positiveOf costBudgetUsdNum)
  | _ => .ok none

def normalizeAgents (raw : Option Value) : Except JsError (Option AgentsConfig) :=
  match (objectOf raw).bind fun obj => objectOf (obj.get? "defaults") with
  | none => .ok none
  | some defaultsObj => do
    let bootstrapMaxCharsNum ← number rt (defaultsObj.get? "bootstrapMaxChars")
    return ((positiveOf bootstrapMaxCharsNum).map Int.floor).bind fun n =>
      if n = 0 then none else some { defaults := { bootstrapMaxChars := n } }

def parseTelegramDmPolicy (value : Option Value) : Except JsError TelegramDmPolicy := do
  let normalized := rt.toLowerCase (← trimmedText rt [value, some (.str "pairing")])
  return if normalized = "allowlist" then .allowlist
    else if normalized = "open" then .open
    else if normalized = "disabled" then .disabled
    else .pairing

/-- `.replace(/^(telegram|tg):/i, "")`. -/
def stripSenderPrefix (s : String) : String :=
  let lower := s.toList.map Char.toLower
  if "telegram:".toList <+: lower then String.ofList (s.toList.drop 9)
  else if "tg:".toList <+: lower then String.ofList (s.toList.drop 3)
  else s

def senderOf (s : String) : String := Js.trim (stripSenderPrefix s)

def normalizeAllowFrom (raw : Option Value) : Except JsError (Option (List String)) :=
  match raw with
  | some (.arr items) => do
    let texts ← items.mapM fun v => v.text rt
    let allowFrom := (texts.map senderOf).filter fun s => s != ""
    return if allowFrom.isEmpty then none else some allowFrom
  | _ => .ok none

/-- The integer a number is. -/
def integerOf : Js.Num → Option Int
  | .fin q => if q.den = 1 then some q.num else none
  | _ => none

def normalizeChatIds (raw : Option Value) : Except JsError (Option (List Int)) :=
  match raw with
  | some (.arr items) => do
    let numbers ← items.mapM fun v => number rt (some v)
    let allowedChatIds := numbers.filterMap integerOf
    return if allowedChatIds.isEmpty then none else some allowedChatIds
  | _ => .ok none

def normalizeChannels (raw : Option Value) : Except JsError (Option ChannelConfig) :=
  match (objectOf raw).bind fun obj => objectOf (obj.get? "telegram") with
  | none => .ok none
  | some obj => do
    let allowFrom ← normalizeAllowFrom rt (obj.get? "allowFrom")
    let allowedChatIds ← normalizeChatIds rt (obj.get? "allowedChatIds")
    let dmPolicy ← parseTelegramDmPolicy rt (obj.get? "dmPolicy")
    return some { telegram := {
      botToken := stringOf (obj.get? "botToken"), dmPolicy, allowFrom, allowedChatIds } }

def normalizePresets (raw : Option Value) : Option ModelPresets :=
  (objectOf raw).map fun obj => {
    default := stringOf (obj.get? "default")
    planning := stringOf (obj.get? "planning")
    coding := stringOf (obj.get? "coding") }

def normalizeConfig (value : Value) : Except JsError T560Config :=
  if !value.isObject then .ok {}
  else do
    let providers ← normalizeProviders rt (value.get? "providers")
    let channels ← normalizeChannels rt (value.get? "channels")
    let tools ← normalizeTools rt (value.get? "tools")
    let skills ← normalizeSkills rt (value.get? "skills")
    let usage ← normalizeUsage rt (value.get? "usage")
    let agents ← normalizeAgents rt (value.get? "agents")
    return {
      provider := stringOf (value.get? "provider")
      models := normalizePresets (value.get? "models")
      providers
      routing := normalizeRouting rt (value.get? "routing")
      channels, tools, skills, usage, agents }

end T560.Config
