import T560.Js.Fields

/-!
# The configuration

The settings of the configuration file as the normalizers leave them, and the object each
record is in the running program. A setting that is undefined is no property of the object
once it has been written.
-/

namespace T560.Config

open Js (Value PropertyMap)
open Js.Value (ofFields ofRecord ofTexts)

inductive Slot where
  | default | planning | coding
  deriving DecidableEq, Repr

structure ModelPresets where
  default : Option String
  planning : Option String
  coding : Option String
  deriving DecidableEq

inductive ProviderAuthMode where
  | api_key | oauth | token
  deriving DecidableEq, Repr

structure ProviderProfile where
  enabled : Bool
  provider : String
  authMode : ProviderAuthMode
  apiKey : Option String
  oauthToken : Option String
  token : Option String
  baseUrl : Option String
  api : Option String
  headers : Option (PropertyMap String)
  compat : Option Value
  models : Option (List String)
  deriving DecidableEq

structure RoutingTarget where
  provider : String
  model : String
  deriving DecidableEq, Repr

structure RoutingConfig where
  default : Option RoutingTarget
  planning : Option RoutingTarget
  coding : Option RoutingTarget
  deriving DecidableEq

inductive TelegramDmPolicy where
  | pairing | allowlist | «open» | disabled
  deriving DecidableEq, Repr

structure TelegramChannelConfig where
  botToken : Option String
  dmPolicy : TelegramDmPolicy
  allowFrom : Option (List String)
  allowedChatIds : Option (List Int)
  deriving DecidableEq

structure ChannelConfig where
  telegram : TelegramChannelConfig
  deriving DecidableEq

structure ToolPolicyConfig where
  allow : Option (List String)
  deny : Option (List String)
  deriving DecidableEq

inductive ToolProfileId where
  | minimal | coding | messaging | full
  deriving DecidableEq, Repr

inductive WebSearchProvider where
  | brave | duckduckgo
  deriving DecidableEq, Repr

structure WebSearchToolConfig where
  enabled : Option Bool
  provider : Option WebSearchProvider
  apiKey : Option String
  timeoutMs : Option Int
  maxResults : Option Int
  region : Option String
  fetchTop : Option Int
  fetchMaxBytes : Option Int
  deriving DecidableEq

structure WebFetchToolConfig where
  enabled : Option Bool
  timeoutMs : Option Int
  maxBytes : Option Int
  deriving DecidableEq

structure WebToolsConfig where
  search : Option WebSearchToolConfig
  fetch : Option WebFetchToolConfig
  deriving DecidableEq

structure FsConfig where
  workspaceOnly : Option Bool
  deriving DecidableEq

structure ExecConfig where
  timeoutSec : Option Js.Num
  allowBackground : Option Bool
  deriving DecidableEq

structure SelfProtectionConfig where
  enabled : Option Bool
  installRoot : Option String
  protectedPaths : Option (List String)
  deriving DecidableEq

structure ToolsConfig where
  dangerouslyUnrestricted : Option Bool
  profile : Option ToolProfileId
  allow : Option (List String)
  alsoAllow : Option (List String)
  deny : Option (List String)
  byProvider : Option (PropertyMap ToolPolicyConfig)
  runtime : Option ToolPolicyConfig
  fs : Option FsConfig
  exec : Option ExecConfig
  web : Option WebToolsConfig
  selfProtection : Option SelfProtectionConfig
  deriving DecidableEq

structure SkillsEntryConfig where
  enabled : Option Bool
  deriving DecidableEq

structure SkillsConfig where
  allow : Option (List String)
  dirs : Option (List String)
  entries : Option (PropertyMap SkillsEntryConfig)
  deriving DecidableEq

structure UsageConfig where
  tokenBudget : Option Int
  costBudgetUsd : Option ℚ
  deriving DecidableEq

structure AgentDefaultsConfig where
  bootstrapMaxChars : Int
  deriving DecidableEq

structure AgentsConfig where
  defaults : AgentDefaultsConfig
  deriving DecidableEq

structure T560Config where
  provider : Option String := none
  models : Option ModelPresets := none
  providers : Option (PropertyMap ProviderProfile) := none
  routing : Option RoutingConfig := none
  channels : Option ChannelConfig := none
  tools : Option ToolsConfig := none
  skills : Option SkillsConfig := none
  usage : Option UsageConfig := none
  agents : Option AgentsConfig := none
  deriving DecidableEq

section Objects

def intValue (n : Int) : Value := .num (.fin n)

def ProviderAuthMode.text : ProviderAuthMode → String
  | .api_key => "api_key"
  | .oauth => "oauth"
  | .token => "token"

def TelegramDmPolicy.text : TelegramDmPolicy → String
  | .pairing => "pairing"
  | .allowlist => "allowlist"
  | .open => "open"
  | .disabled => "disabled"

def ToolProfileId.text : ToolProfileId → String
  | .minimal => "minimal"
  | .coding => "coding"
  | .messaging => "messaging"
  | .full => "full"

def WebSearchProvider.text : WebSearchProvider → String
  | .brave => "brave"
  | .duckduckgo => "duckduckgo"

def ModelPresets.toValue (m : ModelPresets) : Value :=
  ofFields [("default", m.default.map .str), ("planning", m.planning.map .str),
    ("coding", m.coding.map .str)]

def ProviderProfile.toValue (p : ProviderProfile) : Value :=
  ofFields [("enabled", some (.bool p.enabled)), ("provider", some (.str p.provider)),
    ("authMode", some (.str p.authMode.text)), ("apiKey", p.apiKey.map .str),
    ("oauthToken", p.oauthToken.map .str), ("token", p.token.map .str),
    ("baseUrl", p.baseUrl.map .str), ("api", p.api.map .str),
    ("headers", p.headers.map (ofRecord .str)), ("compat", p.compat),
    ("models", p.models.map ofTexts)]

def RoutingTarget.toValue (t : RoutingTarget) : Value :=
  ofFields [("provider", some (.str t.provider)), ("model", some (.str t.model))]

def RoutingConfig.toValue (r : RoutingConfig) : Value :=
  ofFields [("default", r.default.map RoutingTarget.toValue),
    ("planning", r.planning.map RoutingTarget.toValue),
    ("coding", r.coding.map RoutingTarget.toValue)]

def TelegramChannelConfig.toValue (t : TelegramChannelConfig) : Value :=
  ofFields [("botToken", t.botToken.map .str), ("dmPolicy", some (.str t.dmPolicy.text)),
    ("allowFrom", t.allowFrom.map ofTexts),
    ("allowedChatIds", t.allowedChatIds.map fun ids => .arr (ids.map intValue))]

def ChannelConfig.toValue (c : ChannelConfig) : Value :=
  ofFields [("telegram", some c.telegram.toValue)]

def ToolPolicyConfig.toValue (p : ToolPolicyConfig) : Value :=
  ofFields [("allow", p.allow.map ofTexts), ("deny", p.deny.map ofTexts)]

def WebSearchToolConfig.toValue (s : WebSearchToolConfig) : Value :=
  ofFields [("enabled", s.enabled.map .bool), ("provider", s.provider.map fun p => .str p.text),
    ("apiKey", s.apiKey.map .str), ("timeoutMs", s.timeoutMs.map intValue),
    ("maxResults", s.maxResults.map intValue), ("region", s.region.map .str),
    ("fetchTop", s.fetchTop.map intValue), ("fetchMaxBytes", s.fetchMaxBytes.map intValue)]

def WebFetchToolConfig.toValue (f : WebFetchToolConfig) : Value :=
  ofFields [("enabled", f.enabled.map .bool), ("timeoutMs", f.timeoutMs.map intValue),
    ("maxBytes", f.maxBytes.map intValue)]

def WebToolsConfig.toValue (w : WebToolsConfig) : Value :=
  ofFields [("search", w.search.map WebSearchToolConfig.toValue),
    ("fetch", w.fetch.map WebFetchToolConfig.toValue)]

def FsConfig.toValue (f : FsConfig) : Value :=
  ofFields [("workspaceOnly", f.workspaceOnly.map .bool)]

def ExecConfig.toValue (e : ExecConfig) : Value :=
  ofFields [("timeoutSec", e.timeoutSec.map .num), ("allowBackground", e.allowBackground.map .bool)]

def SelfProtectionConfig.toValue (s : SelfProtectionConfig) : Value :=
  ofFields [("enabled", s.enabled.map .bool), ("installRoot", s.installRoot.map .str),
    ("protectedPaths", s.protectedPaths.map ofTexts)]

def ToolsConfig.toValue (t : ToolsConfig) : Value :=
  ofFields [("dangerouslyUnrestricted", t.dangerouslyUnrestricted.map .bool),
    ("profile", t.profile.map fun p => .str p.text), ("allow", t.allow.map ofTexts),
    ("alsoAllow", t.alsoAllow.map ofTexts), ("deny", t.deny.map ofTexts),
    ("byProvider", t.byProvider.map (ofRecord ToolPolicyConfig.toValue)),
    ("runtime", t.runtime.map ToolPolicyConfig.toValue), ("fs", t.fs.map FsConfig.toValue),
    ("exec", t.exec.map ExecConfig.toValue), ("web", t.web.map WebToolsConfig.toValue),
    ("selfProtection", t.selfProtection.map SelfProtectionConfig.toValue)]

def SkillsEntryConfig.toValue (e : SkillsEntryConfig) : Value :=
  ofFields [("enabled", e.enabled.map .bool)]

def SkillsConfig.toValue (s : SkillsConfig) : Value :=
  ofFields [("allow", s.allow.map ofTexts), ("dirs", s.dirs.map ofTexts),
    ("entries", s.entries.map (ofRecord SkillsEntryConfig.toValue))]

def UsageConfig.toValue (u : UsageConfig) : Value :=
  ofFields [("tokenBudget", u.tokenBudget.map intValue),
    ("costBudgetUsd", u.costBudgetUsd.map fun q => .num (.fin q))]

def AgentsConfig.toValue (a : AgentsConfig) : Value :=
  ofFields [("defaults",
    some (ofFields [("bootstrapMaxChars", some (intValue a.defaults.bootstrapMaxChars))]))]

def T560Config.toValue (c : T560Config) : Value :=
  ofFields [("provider", c.provider.map .str), ("models", c.models.map ModelPresets.toValue),
    ("providers", c.providers.map (ofRecord ProviderProfile.toValue)),
    ("routing", c.routing.map RoutingConfig.toValue),
    ("channels", c.channels.map ChannelConfig.toValue), ("tools", c.tools.map ToolsConfig.toValue),
    ("skills", c.skills.map SkillsConfig.toValue), ("usage", c.usage.map UsageConfig.toValue),
    ("agents", c.agents.map AgentsConfig.toValue)]

end Objects

end T560.Config
