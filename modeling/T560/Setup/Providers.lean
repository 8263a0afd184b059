import T560.Channels.Pairing
import T560.Config.Onboarding

/-!
# Deleting a provider

The dashboard's request that removes a provider from the configuration. Routes to the provider are
moved to the first one that is left, with a model for the slot.
-/

namespace T560.Setup

open Channels (OBJECT_NAMES)
open Config (T560Config ProviderProfile RoutingTarget RoutingConfig ModelPresets Slot
  resolveRoutingTarget normalizeConfig)
open Js (Value PropertyMap JsError Runtime trim)
open Js.Value (trimmedText)

section Catalog

/-- What the routes take from an entry of the catalog. -/
structure ProviderCatalogEntry where
  id : String
  models : List String
  defaultModel : String
  planningModel : String
  codingModel : String

def DEEPSEEK_CHAT_MODEL_ID : String := "deepseek-chat"
def DEEPSEEK_REASONER_MODEL_ID : String := "deepseek-reasoner"
def DEEPSEEK_CANONICAL_MODEL_IDS : List String := [DEEPSEEK_CHAT_MODEL_ID, DEEPSEEK_REASONER_MODEL_ID]

def DEEPSEEK_MODEL_ALIAS_MAP : PropertyMap String :=
  [("deepseek-chat", DEEPSEEK_CHAT_MODEL_ID), ("deepseek-v3", DEEPSEEK_CHAT_MODEL_ID),
    ("deepseek-v3-0324", DEEPSEEK_CHAT_MODEL_ID), ("deepseek-v3.1", DEEPSEEK_CHAT_MODEL_ID),
    ("deepseek-v3.1-terminus", DEEPSEEK_CHAT_MODEL_ID), ("deepseek-v3.2", DEEPSEEK_CHAT_MODEL_ID),
    ("deepseek-v3.2-exp", DEEPSEEK_CHAT_MODEL_ID), ("deepseek-reasoner", DEEPSEEK_REASONER_MODEL_ID),
    ("deepseek-r1", DEEPSEEK_REASONER_MODEL_ID), ("deepseek-r1-0528", DEEPSEEK_REASONER_MODEL_ID)]

def CATALOG : List ProviderCatalogEntry :=
  [⟨"openai-codex",
      ["gpt-5.1-codex-mini", "gpt-5.1-codex", "gpt-5.2-codex", "gpt-5.3-codex"],
      "gpt-5.1-codex-mini", "gpt-5.1-codex-mini", "gpt-5.1-codex"⟩,
    ⟨"openai", ["gpt-4o-mini", "gpt-4.1-mini", "gpt-5-mini"], "gpt-4o-mini", "gpt-4o-mini",
      "gpt-4.1-mini"⟩,
    ⟨"local-openai", ["local-model"], "local-model", "local-model", "local-model"⟩,
    ⟨"anthropic", ["claude-sonnet-4-5", "claude-opus-4-6"], "claude-sonnet-4-5",
      "claude-sonnet-4-5", "claude-sonnet-4-5"⟩,
    ⟨"openrouter", ["openai/gpt-4o-mini", "anthropic/claude-3.5-sonnet"], "openai/gpt-4o-mini",
      "openai/gpt-4o-mini", "openai/gpt-4o-mini"⟩,
    ⟨"deepseek", DEEPSEEK_CANONICAL_MODEL_IDS, DEEPSEEK_CHAT_MODEL_ID, DEEPSEEK_REASONER_MODEL_ID,
      DEEPSEEK_CHAT_MODEL_ID⟩]

def ProviderCatalogEntry.model (entry : ProviderCatalogEntry) : Slot → String
  | .planning => entry.planningModel
  | .coding => entry.codingModel
  | .default => entry.defaultModel

/-- A text that is not empty. -/
def orUndefined (s : String) : Option String := if s = "" then none else some s

def resolveCatalogRouteModel (providerId : String) (slot : Slot) : Option String :=
  (CATALOG.find? (·.id = providerId)).bind fun entry =>
    (orUndefined (entry.model slot)).or entry.models.head?

end Catalog

section Models
variable (rt : Runtime)

/-- The ids whose lower-cased text was not seen before. -/
def unseenModelIds (seen : List String) : List String → List String
  | [] => []
  | modelId :: rest =>
    let key := rt.toLowerCase modelId
    if key ∈ seen then unseenModelIds seen rest else modelId :: unseenModelIds (key :: seen) rest

def uniqModelIds (values : List String) : List String :=
  unseenModelIds rt [] ((values.map trim).filter (· ≠ ""))

/-- `DEEPSEEK_MODEL_ALIAS_MAP[modelId.toLowerCase()] ?? modelId`; what every object answers to has
no `toLowerCase`. -/
def deepseekModel (modelId : String) : Except JsError String :=
  match DEEPSEEK_MODEL_ALIAS_MAP.lookup (rt.toLowerCase modelId) with
  | some id => .ok id
  | none => if rt.toLowerCase modelId ∈ OBJECT_NAMES then .error .typeError else .ok modelId

def normalizeProviderModels (providerId : String) (models : List String) :
    Except JsError (List String) :=
  let compact := uniqModelIds rt models
  if rt.toLowerCase (trim providerId) ≠ "deepseek" then .ok compact
  else do
    let normalized ← compact.mapM (deepseekModel rt)
    return DEEPSEEK_CANONICAL_MODEL_IDS ++
      unseenModelIds rt (DEEPSEEK_CANONICAL_MODEL_IDS.map rt.toLowerCase) normalized

/-- The model of the catalog, or the first one of the profile. -/
def resolveProviderRouteModel (providerId : String) (profile : Option ProviderProfile) (slot : Slot) :
    Except JsError (Option String) := do
  let rawModels := (profile.bind (·.models)).getD []
  let providerModels ← normalizeProviderModels rt providerId ((rawModels.map trim).filter (· ≠ ""))
  return (resolveCatalogRouteModel providerId slot).or providerModels.head?

end Models

section Request
variable (rt : Runtime)

/-- A character in `[a-z0-9._-]`. -/
def isIdChar (c : Char) : Bool :=
  ('a' ≤ c && c ≤ 'z') || ('0' ≤ c && c ≤ '9') || c == '.' || c == '_' || c == '-'

/-- `text.replace(/[^a-z0-9._-]+/g, "-")`; the flag says that the last character was replaced. -/
def hyphenated : Bool → List Char → List Char
  | _, [] => []
  | inside, c :: rest =>
    if isIdChar c then c :: hyphenated false rest
    else if inside then hyphenated true rest
    else '-' :: hyphenated true rest

def sanitizeProviderId (raw : Option Value) : Except JsError (Option String) := do
  let value := rt.toLowerCase (← trimmedText rt [raw])
  return orUndefined (String.ofList
    (((hyphenated false value.toList).dropWhile (· = '-')).rdropWhile (· = '-')))

/-- Whether `providers[id]` is truthy: an own profile, or what every object answers to. -/
def answers (providers : PropertyMap ProviderProfile) (id : String) : Bool :=
  (providers.lookup id).isSome || OBJECT_NAMES.contains id

/-- The route of a slot once the provider is gone. -/
def fallbackRoute (providerId : String) (providers : PropertyMap ProviderProfile)
    (current : Option RoutingTarget) (slot : Slot) : Except JsError (Option RoutingTarget) :=
  let fallbackProvider := (((PropertyMap.entries providers).map Prod.fst).head?).getD ""
  let currentProvider := trim ((current.map (·.provider)).getD "")
  let currentModel := trim ((current.map (·.model)).getD "")
  if currentProvider ≠ "" ∧ currentModel ≠ "" ∧ currentProvider ≠ providerId ∧
      answers providers currentProvider then
    .ok (some { provider := currentProvider, model := currentModel })
  else if fallbackProvider = "" ∨ ¬ answers providers fallbackProvider then .ok none
  else do
    let model ← resolveProviderRouteModel rt fallbackProvider (providers.lookup fallbackProvider) slot
    return (model.bind orUndefined).map fun model => { provider := fallbackProvider, model }

/-- The three routes, each moved where it has to be. -/
def nextRoutes (config : T560Config) (providerId : String) (providers : PropertyMap ProviderProfile) :
    Except JsError RoutingConfig := do
  let route := fun slot => fallbackRoute rt providerId providers (resolveRoutingTarget rt config slot) slot
  let defaultRoute ← route .default
  let planningRoute ← route .planning
  let codingRoute ← route .coding
  return { default := defaultRoute, planning := planningRoute, coding := codingRoute }

def routeText (route : RoutingTarget) : String := route.provider ++ "/" ++ route.model

def nextModels (routes : RoutingConfig) : ModelPresets where
  default := routes.default.map routeText
  planning := routes.planning.map routeText
  coding := routes.coding.map routeText

def nextConfig (config : T560Config) (providers : PropertyMap ProviderProfile)
    (routes : RoutingConfig) : T560Config :=
  let routed := routes.default.isSome || routes.planning.isSome || routes.coding.isSome
  { config with
    providers := some providers
    provider := routes.default.map (·.provider)
    models := if routed then some (nextModels routes) else none
    routing := if routed then some routes else none }

/-- What `JSON.parse` reads from the file that `writeConfig` writes. -/
def writeConfig (config : T560Config) : Except JsError Value := do
  return (← normalizeConfig rt config.toValue).toValue.serialized

structure SetupError where
  status : Nat
  error : String
  message : String
  deriving DecidableEq

inductive DeleteReply where
  | refused (e : SetupError)
  | removed (providerId : String) (file : Value)
  deriving DecidableEq

/-- `body` is the parsed request body, if it was JSON; `config` is what `readConfig` returned. -/
def handleDeleteSetupProvider (body : Option Value) (config : T560Config) : Except JsError DeleteReply :=
  match body with
  | none => .ok (.refused ⟨400, "invalid_json", "Request body must be valid JSON."⟩)
  | some body =>
    if !body.isRecord then .ok (.refused ⟨400, "invalid_body", "Body must be an object."⟩)
    else do
      match ← sanitizeProviderId rt (body.get? "providerId") with
      | none => return .refused ⟨400, "invalid_provider", "providerId is required."⟩
      | some providerId =>
        let providers := config.providers.getD []
        if !answers providers providerId then
          return .refused ⟨404, "provider_not_found", providerId ++ " is not configured."⟩
        let remaining := PropertyMap.remove providers providerId
        let routes ← nextRoutes rt config providerId remaining
        let file ← writeConfig rt (nextConfig config remaining routes)
        return .removed providerId file

end Request

end T560.Setup
